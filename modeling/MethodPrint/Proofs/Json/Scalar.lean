import MethodPrint.Json.Reader
import MethodPrint.Json.Value
import MethodPrint.Proofs.Text.Numeral

/-!
# Strings and numbers are read back

What is written for a string is read as this string, whatever its characters. What is written for a
number is read to the end of its digits, where no further part of a number follows.
-/

namespace MethodPrint.Json

/-! ### Strings -/

/-- What is written for a character is read as this character. -/
theorem readChars_escapeChar (c : Char) (rest : List Char) :
    readChars none (escapeChar c ++ rest) = (readChars none rest).cons c := by
  unfold escapeChar
  split
  · simp [readChars, simpleEscape?]
  · simp [readChars, simpleEscape?]
  · simp [readChars, simpleEscape?]
  · simp [readChars, simpleEscape?]
  · simp [readChars, simpleEscape?]
  · simp [readChars, simpleEscape?]
  · simp [readChars, simpleEscape?]
  · next hq hb _ _ _ _ _ =>
    split
    · next hc =>
      have ht : isTrailing c.toNat = false := by
        simp only [isTrailing, Bool.and_eq_false_iff, decide_eq_false_iff_not]
        omega
      have hl : isLeading c.toNat = false := by
        simp only [isLeading, Bool.and_eq_false_iff, decide_eq_false_iff_not]
        omega
      simp [Text.hexPadded_of_lt (show c.toNat < 256 by omega), readChars,
        Text.hexQuad_of_lt (show c.toNat < 256 by omega), ht, hl, Char.ofNat_toNat]
    · next hc =>
      rw [List.singleton_append, readChars]
      · rw [if_neg hc]
      · exact hq
      · exact fun he _ ↦ hb he
      · exact fun _ _ _ _ _ he _ ↦ hb he
      · exact fun _ he _ ↦ hb he
      · exact fun _ _ he _ ↦ hb he

/-- What is written for characters is read as these characters up to the closing quote. -/
theorem readChars_flatMap_escapeChar (chars rest : List Char) :
    readChars none (chars.flatMap escapeChar ++ '"' :: rest) = .closed (.ok chars) rest := by
  induction chars with
  | nil => rfl
  | cons c chars ih =>
    rw [List.flatMap_cons, List.append_assoc, readChars_escapeChar, ih]
    rfl

/-- What is written for a string is read as this string. -/
theorem readChars_stringText (value : String) (rest : List Char) :
    ∃ text, stringText value ++ rest = '"' :: text ∧
      readChars none text = .closed (.ok value.toList) rest :=
  ⟨value.toList.flatMap escapeChar ++ '"' :: rest, by simp [stringText],
    readChars_flatMap_escapeChar value.toList rest⟩

/-! ### Numbers -/

/-- No part of a number follows. -/
def EndsNumber (rest : List Char) : Prop :=
  ∀ c ∈ rest.head?, c.isDigit = false ∧ c ∉ ['.', 'e', 'E']

/-- A number ends before a character that is no part of one. -/
theorem endsNumber_cons {c : Char} (hd : c.isDigit = false) (hc : c ∉ ['.', 'e', 'E'])
    (rest : List Char) : EndsNumber (c :: rest) := by
  rintro _ ⟨⟩
  exact ⟨hd, hc⟩

/-- What is met in the place of an integer. -/
def integerTree (value : Int) : Tree :=
  numberTree (decide (value < 0)) (Nat.toDigits 10 value.natAbs) [] none

/-- An integer of 64 bits is met as it is. -/
theorem integerTree_of_bounds {value : Int} (hl : Int64.minValue.toInt ≤ value)
    (hu : value < UInt64.size) : integerTree value = .integer value := by
  have hmin : Int64.minValue.toInt = -9223372036854775808 := by decide
  have hsize : UInt64.size = 18446744073709551616 := rfl
  simp only [integerTree, numberTree, Text.ofDigits_toDigits, List.isEmpty_nil,
    Option.isNone_none, Bool.and_self, Bool.true_and]
  rw [hmin] at hl
  rw [hsize] at hu
  by_cases hv : value < 0
  · rw [if_neg (by simp [hv]), if_pos]
    · simp only [Tree.integer.injEq]
      omega
    · rw [hmin]
      simp only [hv, decide_true, Bool.true_and, bne_iff_ne, ne_eq, Bool.and_eq_true,
        decide_eq_true_eq]
      omega
  · rw [if_pos]
    · simp only [Tree.integer.injEq]
      omega
    · rw [hsize]
      simp only [hv, decide_false, Bool.not_false, Bool.true_and, decide_eq_true_eq]
      omega

/-- The text of a number: a sign for a negative one, and its digits. -/
theorem numberText_eq (value : Int) :
    numberText value = (if value < 0 then ['-'] else []) ++ Nat.toDigits 10 value.natAbs := by
  rw [numberText, Int.toString_eq_repr, Int.repr_eq_if]
  by_cases hv : value < 0
  · have : (-value).toNat = value.natAbs := by omega
    rw [if_neg (by omega), if_pos hv, String.toList_append, Nat.toList_repr, this]
    rfl
  · have : value.toNat = value.natAbs := by omega
    rw [if_pos (by omega), if_neg hv, Nat.toList_repr, this, List.nil_append]

private theorem readFraction_of_endsNumber (negative : Bool) (whole : List Char)
    {rest : List Char} (hr : EndsNumber rest) :
    readFraction negative whole rest = (numberTree negative whole [] none, rest) := by
  cases rest with
  | nil => rfl
  | cons c rest =>
    obtain ⟨_, hc⟩ := hr c rfl
    simp only [List.mem_cons, List.not_mem_nil, or_false, not_or] at hc
    unfold readFraction
    split
    · next h => exact absurd (List.cons.inj h).1 hc.1
    · simp [hc.2]

/-- The digits of a number end where no part of a number follows. -/
theorem takeWhile_toDigits (n : Nat) {rest : List Char} (hr : EndsNumber rest) :
    (Nat.toDigits 10 n ++ rest).takeWhile Char.isDigit = Nat.toDigits 10 n :=
  Text.takeWhile_append_of_head? (fun _ hc ↦ Text.isDigit_of_mem_toDigits hc)
    fun c hc ↦ (hr c hc).1

/-- The digits of a number are read to their end. -/
theorem readUnsigned_toDigits (negative : Bool) (n : Nat) {rest : List Char}
    (hr : EndsNumber rest) :
    readUnsigned negative (Nat.toDigits 10 n ++ rest) =
      (numberTree negative (Nat.toDigits 10 n) [] none, rest) := by
  by_cases hn : n = 0
  · subst hn
    have hd : rest.head?.any Char.isDigit = false := by
      rw [Option.any_eq_false]
      exact fun c hc ↦ by simp [(hr c hc).1]
    rw [Nat.toDigits_zero, List.singleton_append, readUnsigned, hd, if_neg Bool.false_ne_true,
      readFraction_of_endsNumber negative ['0'] hr]
  · have hz := Text.head?_toDigits_ne_zero hn
    unfold readUnsigned
    split
    · next h =>
      obtain ⟨first, more, hd, _⟩ := Text.exists_toDigits n
      rw [hd, List.cons_append] at h
      rw [hd, (List.cons.inj h).1] at hz
      exact absurd rfl hz
    · rw [takeWhile_toDigits n hr, if_neg (by simp [Nat.toDigits_ne_nil]), List.drop_left,
        readFraction_of_endsNumber negative _ hr]

/-- What is written for a number is read to its end. -/
theorem readNumber_numberText (value : Int) {rest : List Char} (hr : EndsNumber rest) :
    readNumber (numberText value ++ rest) = (integerTree value, rest) := by
  have h := readUnsigned_toDigits (decide (value < 0)) value.natAbs hr
  rw [numberText_eq, integerTree]
  by_cases hv : value < 0
  · rw [if_pos hv, List.append_assoc, List.singleton_append, readNumber]
    simpa [hv] using h
  · rw [if_neg hv, List.nil_append, ← h]
    obtain ⟨first, more, hd, hf, _⟩ := Text.exists_toDigits value.natAbs
    rw [hd, List.cons_append]
    have hm : first ≠ '-' := by
      rintro rfl
      exact absurd hf (by decide)
    unfold readNumber
    split
    · next hc => exact absurd (List.cons.inj hc).1 hm
    · rw [decide_eq_false hv]

end MethodPrint.Json
