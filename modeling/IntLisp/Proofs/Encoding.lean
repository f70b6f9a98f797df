/-
  IntLisp.Proofs.Encoding
  ───────────────────────
  **A SOURCE AND THE BYTES IT WAS READ FROM.**

  Characters are read one by one, each from as many bytes as it has.  So if
  nothing stopped the reading, the bytes are those of the byte order mark, if
  there is one, and then those of the characters of the source.  Something
  does stop it exactly if the bytes are no UTF-8 or one of them is zero: a
  text is read from its own bytes as it is, up to its first NUL.
-/
import IntLisp.Source
import Mathlib.Data.List.TakeWhile
import Mathlib.Tactic.SplitIfs

namespace IntLisp

/-! ## §1. Characters and the mark before them. -/

/-- The byte order mark, if one led the text. -/
def Source.mark (src : Source) : List Char := if src.marked then [byteOrderMark] else []

theorem Source.nul_not_mem_mark (src : Source) : '\x00' ∉ src.mark := by
  unfold mark
  split
  · simp [byteOrderMark]
  · exact List.not_mem_nil

theorem Source.mark_append_dropMark (cs : List Char) (ending : Option Fault) :
    (Source.ofChars cs ending).mark ++ Source.dropMark cs = cs := by
  unfold Source.mark Source.ofChars Source.dropMark
  cases hmarked : Source.isMarked cs with
  | false => rfl
  | true =>
    obtain ⟨cs', rfl⟩ : ∃ cs', cs = byteOrderMark :: cs' := by
      simpa [Source.isMarked, List.head?_eq_some_iff] using hmarked
    rfl

/-- What is put behind characters is no mark that leads them. -/
theorem Source.dropMark_append_cons {c : Char} (hc : c ≠ byteOrderMark) (cs ds : List Char) :
    Source.isMarked (cs ++ c :: ds) = Source.isMarked cs
      ∧ Source.dropMark (cs ++ c :: ds) = Source.dropMark cs ++ c :: ds := by
  have hmarked : Source.isMarked (cs ++ c :: ds) = Source.isMarked cs := by
    cases cs with
    | nil => simp [Source.isMarked, hc]
    | cons b bs => rfl
  refine ⟨hmarked, ?_⟩
  unfold Source.dropMark
  rw [hmarked]
  cases cs with
  | nil => rfl
  | cons b bs => split <;> rfl

/-- Where there is no NUL, nothing is cut off at one. -/
theorem Source.takeWhile_of_nul_not_mem {cs : List Char} (h : '\x00' ∉ cs) :
    cs.takeWhile (· ≠ '\x00') = cs := by
  refine List.takeWhile_eq_self_iff.2 fun c hc => ?_
  have hne : c ≠ '\x00' := fun he => h (he ▸ hc)
  exact decide_eq_true hne

/-- Without a fault nothing is left out. -/
theorem Source.chars_of_fault {cs : List Char} {ending : Option Fault}
    (h : (Source.ofChars cs ending).fault = none) :
    ending = none ∧ '\x00' ∉ Source.dropMark cs
      ∧ (Source.ofChars cs ending).chars = Source.dropMark cs := by
  unfold Source.ofChars at h ⊢
  by_cases hnul : '\x00' ∈ Source.dropMark cs
  · rw [if_pos hnul] at h
    cases h
  · rw [if_neg hnul] at h
    exact ⟨h, hnul, takeWhile_of_nul_not_mem hnul⟩

theorem Source.nul_not_mem_dropMark {cs : List Char} (h : '\x00' ∉ cs) :
    '\x00' ∉ Source.dropMark cs := by
  unfold Source.dropMark
  split
  · exact fun hmem => h (List.mem_of_mem_tail hmem)
  · exact h

/-- Characters without NUL are read to their end. -/
theorem Source.ofChars_eq {cs : List Char} (hnul : '\x00' ∉ cs) (ending : Option Fault) :
    Source.ofChars cs ending = ⟨Source.isMarked cs, Source.dropMark cs, ending⟩ := by
  have hdrop := nul_not_mem_dropMark hnul
  unfold Source.ofChars
  rw [if_neg hdrop, takeWhile_of_nul_not_mem hdrop]

/-- A text without NUL is read to its end. -/
theorem Source.ofString_eq {s : String} (hnul : '\x00' ∉ s.toList) :
    Source.ofString s = ⟨Source.isMarked s.toList, Source.dropMark s.toList, none⟩ :=
  ofChars_eq hnul none

/-- A text without NUL that does not begin with a mark is read as it is. -/
theorem Source.ofString_unmarked {s : String} (hmark : Source.isMarked s.toList = false)
    (hnul : '\x00' ∉ s.toList) : Source.ofString s = ⟨false, s.toList, none⟩ := by
  rw [Source.ofString_eq hnul, Source.dropMark, hmark]
  rfl

namespace Input

/-! ## §2. From bytes to characters. -/

/-- **The characters that are read are the bytes that are passed.** -/
theorem extract_decodeFrom (bytes : ByteArray) (i : Nat) (hi : i ≤ bytes.size) :
    i ≤ (decodeFrom bytes i).2 ∧ (decodeFrom bytes i).2 ≤ bytes.size
      ∧ bytes.extract i (decodeFrom bytes i).2 = (decodeFrom bytes i).1.utf8Encode := by
  fun_induction decodeFrom bytes i with
  | case1 i h => exact ⟨Nat.le_refl i, hi, ByteArray.extract_same⟩
  | case2 i c h rest ih =>
    -- the library speaks of the character that an array begins with
    rw [ByteArray.utf8DecodeChar?_eq_utf8DecodeChar?_extract] at h
    have hchar := String.toByteArray_utf8EncodeChar_of_utf8DecodeChar?_eq_some h
    have hsize : i + c.utf8Size ≤ bytes.size := by
      have hle := congrArg ByteArray.size hchar
      simp at hle
      omega
    obtain ⟨hlow, hhigh, heq⟩ := ih hsize
    have hlow : i + c.utf8Size ≤ rest.2 := hlow
    refine ⟨by omega, hhigh, ?_⟩
    calc bytes.extract i rest.2
        = bytes.extract i (i + c.utf8Size) ++ bytes.extract (i + c.utf8Size) rest.2 :=
          ByteArray.extract_eq_extract_append_extract _ (by omega) hlow
      _ = [c].utf8Encode ++ rest.1.utf8Encode := by
          rw [heq, List.utf8Encode_singleton, hchar, ByteArray.extract_extract,
            Nat.add_zero, Nat.min_eq_left hsize]
      _ = (c :: rest.1).utf8Encode := by
          rw [← List.utf8Encode_append, List.singleton_append]

/-- **A source without a fault has all the bytes of its input.** -/
theorem bytes_of_fault {input : Input} (h : input.source.fault = none) :
    input.failure = none ∧ '\x00' ∉ input.source.chars
      ∧ input.bytes = input.source.mark.utf8Encode ++ input.source.chars.utf8Encode := by
  obtain ⟨hending, hnul, hchars⟩ := Source.chars_of_fault h
  obtain ⟨-, hsize, hbytes⟩ := extract_decodeFrom input.bytes 0 (Nat.zero_le _)
  split_ifs at hending with htail htruncated
  -- the only branch without an ending is the one where no byte is left
  have hall : input.bytes.size ≤ (decodeFrom input.bytes 0).2 := by
    simpa using htail
  refine ⟨by simpa using hending, ?_, ?_⟩
  · show '\x00' ∉ (Source.ofChars _ _).chars
    rwa [hchars]
  · show input.bytes = (Source.ofChars _ _).mark.utf8Encode ++ (Source.ofChars _ _).chars.utf8Encode
    rw [hchars, ← List.utf8Encode_append, Source.mark_append_dropMark, ← hbytes,
      Nat.le_antisymm hsize hall, ByteArray.extract_zero_size]

/-! ## §3. From characters to bytes. -/

/-- **Characters are read from their own bytes**, whatever stands before and behind these. -/
theorem decodeFrom_behind (before : ByteArray) (cs : List Char) (rest : ByteArray) :
    let bytes := before ++ cs.utf8Encode ++ rest
    let behind := decodeFrom bytes (before ++ cs.utf8Encode).size
    decodeFrom bytes before.size = (cs ++ behind.1, behind.2) := by
  induction cs generalizing before with
  | nil =>
    intro bytes behind
    have hbefore : before ++ List.utf8Encode [] = before := by
      rw [List.utf8Encode_nil, ByteArray.append_empty]
    show _ = behind
    unfold behind
    rw [hbefore]
  | cons c cs ih =>
    intro bytes behind
    have hbytes : before ++ (c :: cs).utf8Encode
        = (before ++ [c].utf8Encode) ++ cs.utf8Encode := by
      rw [List.utf8Encode_cons, ByteArray.append_assoc]
    have hsize : (before ++ [c].utf8Encode).size = before.size + c.utf8Size := by
      simp [List.utf8Encode_singleton]
    have hchar : bytes.utf8DecodeChar? before.size = some c := by
      rw [ByteArray.utf8DecodeChar?_eq_utf8DecodeChar?_extract,
        show bytes = before ++ ((c :: cs).utf8Encode ++ rest) from ByteArray.append_assoc,
        ByteArray.extract_append_eq_right rfl (by simp), List.utf8Encode_cons,
        List.utf8Encode_singleton, ByteArray.append_assoc,
        ByteArray.utf8DecodeChar?_utf8EncodeChar_append]
    have hrest := ih (before ++ [c].utf8Encode)
    rw [← hbytes, hsize] at hrest
    rw [decodeFrom]
    split
    · next h =>
      rw [hchar] at h
      cases h
    · next d hd =>
      rw [hchar] at hd
      cases hd
      show (c :: (decodeFrom bytes (before.size + c.utf8Size)).1, _) = _
      rw [hrest]
      rfl

/-- Where no character begins, none is read. -/
theorem decodeFrom_of_none {bytes : ByteArray} {i : Nat} (h : bytes.utf8DecodeChar? i = none) :
    decodeFrom bytes i = ([], i) := by
  rw [decodeFrom]
  split
  · rfl
  · next c hc =>
    rw [h] at hc
    cases hc

theorem decodeFrom_append (before : ByteArray) (cs : List Char) :
    decodeFrom (before ++ cs.utf8Encode) before.size = (cs, (before ++ cs.utf8Encode).size) := by
  have hend : (before ++ cs.utf8Encode).utf8DecodeChar? (before ++ cs.utf8Encode).size = none := by
    refine Option.not_isSome_iff_eq_none.1 fun hsome => ?_
    exact Nat.lt_irrefl _ (ByteArray.lt_size_of_isSome_utf8DecodeChar? hsome)
  have h := decodeFrom_behind before cs ByteArray.empty
  dsimp only at h
  rwa [ByteArray.append_empty, decodeFrom_of_none hend, List.append_nil] at h

theorem decodeFrom_toUTF8 (s : String) : decodeFrom s.toUTF8 0 = (s.toList, s.toUTF8.size) := by
  have h := decodeFrom_append ByteArray.empty s.toList
  rwa [ByteArray.empty_append, String.utf8Encode_toList] at h

/-- **A text is read from its own bytes as it is.** -/
theorem source_ofString (s : String) : (ofString s).source = Source.ofString s := by
  unfold source
  simp only [ofString, decodeFrom_toUTF8]
  simp [Source.ofString]

/-- Only NUL has a byte that is zero. -/
theorem eq_nul_of_zero_mem {c : Char} (h : 0 ∈ String.utf8EncodeChar c) : c = '\x00' := by
  rw [String.utf8EncodeChar_eq_utf8EncodeCharFast] at h
  unfold String.utf8EncodeCharFast at h
  dsimp only at h
  -- the bytes of a longer character have their highest bit set
  have hor : ∀ x k : UInt8, k ≠ 0 → ¬ 0 = x ||| k :=
    fun x k hk h => hk (UInt8.or_eq_zero_iff.1 h.symm).2
  split_ifs at h with hsmall
  · have hzero : (0 : UInt8).toNat = c.val.toUInt8.toNat := congrArg UInt8.toNat (by simpa using h)
    have hle : c.val.toNat ≤ 127 := UInt32.le_iff_toNat_le.1 hsmall
    rw [UInt32.toNat_toUInt8, UInt8.toNat_zero] at hzero
    have hval : c.val.toNat = 0 := by omega
    exact Char.ext (UInt32.toNat_inj.1 hval)
  all_goals simp [hor] at h

theorem nul_mem_of_zero_mem {cs : List Char} (h : 0 ∈ cs.utf8Encode.data) : '\x00' ∈ cs := by
  have hmem : 0 ∈ cs.flatMap String.utf8EncodeChar := by
    simpa [List.utf8Encode] using h
  obtain ⟨c, hc, hzero⟩ := List.mem_flatMap.1 hmem
  rwa [← eq_nul_of_zero_mem hzero]

/-- **Bytes that are no UTF-8, or of which one is zero, hold a fault.** -/
theorem fault_of_bytes {input : Input} (h : ¬ input.bytes.IsValidUTF8 ∨ 0 ∈ input.bytes.data) :
    input.source.fault ≠ none := by
  intro hfault
  obtain ⟨-, hnul, hbytes⟩ := bytes_of_fault hfault
  rw [← List.utf8Encode_append] at hbytes
  rcases h with h | h
  · exact h ⟨_, hbytes⟩
  · rw [hbytes] at h
    rcases List.mem_append.1 (nul_mem_of_zero_mem h) with hmark | hchars
    · exact input.source.nul_not_mem_mark hmark
    · exact hnul hchars

end Input

end IntLisp
