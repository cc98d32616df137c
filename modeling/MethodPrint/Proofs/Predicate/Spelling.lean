import MethodPrint.Predicate.Lexer
import MethodPrint.Predicate.Render
import MethodPrint.Proofs.Text.Numeral

/-!
# Spelling of tokens

What a printer writes for a token the lexer reads as that token: strings with their escapes,
numbers of 64 bits and identifiers. An identifier or a number ends where no further character of an
identifier follows.
-/

namespace MethodPrint

/-! ### Strings -/

private theorem charOfCode_toNat (c : Char) : charOfCode? c.toNat = some c := by
  have hv : c.toNat.isValidChar := c.valid
  rw [charOfCode?, if_pos hv, Char.ofNat_toNat]

/-- The characters that stand for one character are read as this character. -/
theorem lexString_quoteChar (taken : Nat) (c : Char) (rest : List Char) :
    lexString taken (quoteChar c ++ rest) =
      (lexString (taken + (quoteChar c).length) rest).map fun (value, n) ↦ (c :: value, n) := by
  unfold quoteChar
  split
  · simp [lexString, simpleEscape?]
  · simp [lexString, simpleEscape?]
  · simp [lexString, simpleEscape?]
  · simp [lexString, simpleEscape?]
  · simp [lexString, simpleEscape?]
  · simp [lexString, simpleEscape?]
  · next hb hq hn _ _ _ =>
    split
    · next hc =>
      have hlt : c.toNat < 256 := by
        simp [Text.isControl] at hc
        omega
      simp [Text.hexPadded_of_lt hlt, lexString, Text.hexQuad_of_lt hlt, charOfCode_toNat]
    · rw [List.singleton_append, lexString]
      · rfl
      · exact hq
      · exact hn
      · exact fun he _ ↦ hb he
      · exact fun _ _ _ _ _ he _ ↦ hb he
      · exact fun _ he _ ↦ hb he
      · exact fun _ _ he _ ↦ hb he

/-- What stands for a text between quotes is read as this text. -/
theorem lexString_flatMap_quoteChar (taken : Nat) (value rest : List Char) :
    lexString taken (value.flatMap quoteChar ++ '"' :: rest) =
      .ok (value, taken + (value.flatMap quoteChar).length + 1) := by
  induction value generalizing taken with
  | nil => rfl
  | cons c value ih =>
    rw [List.flatMap_cons, List.append_assoc, lexString_quoteChar, ih, List.length_append]
    simp only [Except.map, Except.ok.injEq, Prod.mk.injEq, true_and]
    omega

/-! ### Reading tokens -/

/-- No further character of an identifier or a number follows. -/
def Ends (rest : List Char) : Prop := ∀ c ∈ rest.head?, Text.isIdentifierRest c = false

/-- A text is read as a token if a further text follows. -/
def Reads (text rest : List Char) (token : Token) : Prop :=
  ∃ first more, text = first :: more ∧ Text.isBlank first = false ∧ first ≠ '/' ∧
    lexToken first (more ++ rest) = .ok (token, more.length)

private theorem isIdentifierRest_of_isDigit {c : Char} (h : c.isDigit = true) :
    Text.isIdentifierRest c = true := by
  simp [Text.isIdentifierRest, Char.isAlphanum, h]

private theorem toNat_of_isAlpha {c : Char} (h : c.isAlpha = true) :
    65 ≤ c.toNat ∧ c.toNat ≤ 122 := by
  rcases Bool.or_eq_true_iff.mp h with h | h
  · obtain ⟨hl, hu⟩ : 'A'.val ≤ c.val ∧ c.val ≤ 'Z'.val := of_decide_eq_true h
    have hl : 65 ≤ c.toNat := UInt32.le_iff_toNat_le.mp hl
    have hu : c.toNat ≤ 90 := UInt32.le_iff_toNat_le.mp hu
    omega
  · obtain ⟨hl, hu⟩ := Bool.and_eq_true_iff.mp h
    have hl : 97 ≤ c.toNat := UInt32.le_iff_toNat_le.mp (of_decide_eq_true hl)
    have hu : c.toNat ≤ 122 := UInt32.le_iff_toNat_le.mp (of_decide_eq_true hu)
    omega

private theorem toNat_of_isDigit {c : Char} (h : c.isDigit = true) :
    48 ≤ c.toNat ∧ c.toNat ≤ 57 := by
  obtain ⟨hl, hu⟩ := Bool.and_eq_true_iff.mp h
  have hl : 48 ≤ c.toNat := UInt32.le_iff_toNat_le.mp (of_decide_eq_true hl)
  have hu : c.toNat ≤ 57 := UInt32.le_iff_toNat_le.mp (of_decide_eq_true hu)
  exact ⟨hl, hu⟩

/-- No blank stands in an identifier or a number. -/
theorem isBlank_of_isIdentifierRest {c : Char} (h : Text.isIdentifierRest c = true) :
    Text.isBlank c = false := by
  have hn : 48 ≤ c.toNat ∧ c.toNat ≤ 122 := by
    rw [Text.isIdentifierRest, Char.isAlphanum, Bool.or_eq_true, Bool.or_eq_true, beq_iff_eq] at h
    rcases h with (h | h) | rfl
    · have := toNat_of_isAlpha h
      omega
    · have := toNat_of_isDigit h
      omega
    · decide
  simp only [Text.isBlank, Bool.or_eq_false_iff, Bool.and_eq_false_iff, decide_eq_false_iff_not,
    beq_eq_false_iff_ne]
  omega

private theorem startsNumber_of_isIdentifierStart {c : Char} (h : Text.isIdentifierStart c = true)
    (rest : List Char) : startsNumber c rest = false := by
  have hn : 65 ≤ c.toNat := by
    rw [Text.isIdentifierStart, Bool.or_eq_true, beq_iff_eq] at h
    rcases h with h | rfl
    · exact (toNat_of_isAlpha h).1
    · decide
  have hd : c.isDigit ≠ true := by
    intro hd
    have := toNat_of_isDigit hd
    omega
  have hm : c ≠ '-' := by
    rintro rfl
    exact absurd hn (by decide)
  simp [startsNumber, hd, hm]

private theorem lexToken_of_not_mem {c : Char} (hc : c ∉ ['(', ')', '{', '}', ',', '.', '"'])
    (rest : List Char) :
    lexToken c rest =
      if startsNumber c rest then lexNumber c rest
      else if Text.isIdentifierStart c then
        .ok (.identifier (String.ofList (c :: rest.takeWhile Text.isIdentifierRest)),
          (rest.takeWhile Text.isIdentifierRest).length)
      else .error ⟨0, .unexpectedCharacter c⟩ := by
  unfold lexToken
  split
  all_goals first | rfl | simp at hc

private theorem not_mem_of_isIdentifierRest {c : Char} (h : Text.isIdentifierRest c = true) :
    c ∉ ['(', ')', '{', '}', ',', '.', '"', '/'] := by
  intro hm
  simp only [List.mem_cons, List.not_mem_nil, or_false] at hm
  rcases hm with rfl | rfl | rfl | rfl | rfl | rfl | rfl | rfl
  all_goals exact absurd h (by decide)

private theorem lexToken_of_isIdentifierRest {c : Char} (h : Text.isIdentifierRest c = true)
    (rest : List Char) :
    lexToken c rest =
      if startsNumber c rest then lexNumber c rest
      else if Text.isIdentifierStart c then
        .ok (.identifier (String.ofList (c :: rest.takeWhile Text.isIdentifierRest)),
          (rest.takeWhile Text.isIdentifierRest).length)
      else .error ⟨0, .unexpectedCharacter c⟩ := by
  apply lexToken_of_not_mem
  intro hm
  exact not_mem_of_isIdentifierRest h (List.mem_append_left ['/'] hm)

/-- A string between quotes is read as this string. -/
theorem reads_quote (value : String) (rest : List Char) :
    Reads (quote value).toList rest (.string value) := by
  refine ⟨'"', value.toList.flatMap quoteChar ++ ['"'], by simp [quote], by decide, by decide, ?_⟩
  have hs := lexString_flatMap_quoteChar 0 value.toList rest
  rw [lexToken, List.append_assoc, List.singleton_append, hs]
  simp [Except.map]

/-- An identifier is read as it stands. -/
theorem reads_identifier {name : String} (hi : Text.isIdentifier name.toList = true)
    {rest : List Char} (hr : Ends rest) : Reads name.toList rest (.identifier name) := by
  cases hn : name.toList with
  | nil =>
    rw [hn] at hi
    cases hi
  | cons first more =>
    rw [hn, Text.isIdentifier, Bool.and_eq_true, List.all_eq_true] at hi
    obtain ⟨hs, hm⟩ := hi
    have hf := Text.isIdentifierRest_of_start hs
    have hd : startsNumber first (more ++ rest) = false := startsNumber_of_isIdentifierStart hs _
    refine ⟨first, more, rfl, isBlank_of_isIdentifierRest hf, ?_, ?_⟩
    · rintro rfl
      exact absurd hf (by decide)
    · rw [lexToken_of_isIdentifierRest hf, hd, if_neg Bool.false_ne_true, if_pos hs,
        Text.takeWhile_append_of_head? hm hr, ← hn, String.ofList_toList]

/-! ### Numbers -/

/-- What may stand after the digits of a number and belongs to it: the suffix `L`, or nothing where
the number ends without it. -/
def NumberEnd (suffix rest : List Char) : Prop := suffix = ['L'] ∨ suffix = [] ∧ Ends rest

private theorem lexNumber_of_digits {first : Char} {more suffix rest : List Char} {value : Int64}
    (hm : ∀ c ∈ more, c.isDigit = true) (he : NumberEnd suffix rest)
    (hv : (if first = '-' then -(Text.ofDigits more : Int) else Text.ofDigits (first :: more)) =
      value.toInt) :
    lexNumber first (more ++ (suffix ++ rest)) =
      .ok (.number value, (more ++ suffix).length) := by
  have hdigit : ∀ c ∈ (suffix ++ rest).head?, c.isDigit = false := by
    intro c hc
    rw [← Bool.not_eq_true]
    intro hd
    rcases he with rfl | ⟨rfl, hr⟩
    · obtain rfl : 'L' = c := Option.some.inj hc
      exact absurd hd (by decide)
    · have := isIdentifierRest_of_isDigit hd
      rw [hr c hc] at this
      cases this
  have hsuffix : (if (suffix ++ rest).head? = some 'L' then 1 else 0) = suffix.length := by
    rcases he with rfl | ⟨rfl, hr⟩
    · rfl
    · apply if_neg
      intro hl
      exact absurd (hr 'L' hl) (by decide)
  simp only [lexNumber, Text.takeWhile_append_of_head? hm hdigit, List.drop_left, hv, hsuffix,
    Int64.ofInt_toInt, List.length_append]
  rw [if_pos ⟨value.minValue_le_toInt, value.toInt_le⟩]

/-- A number of 64 bits in decimal is read as this number, with a suffix or without. -/
theorem reads_number_append (value : Int64) {suffix rest : List Char}
    (he : NumberEnd suffix rest) :
    Reads ((toString value.toInt).toList ++ suffix) rest (.number value) := by
  have hdigit (n : Nat) : ∀ c ∈ Nat.toDigits 10 n, c.isDigit = true :=
    fun c hc ↦ Text.isDigit_of_mem_toDigits hc
  rw [Int.toString_eq_repr, Int.repr_eq_if]
  split
  · next h0 =>
    rw [Nat.toList_repr]
    cases hd : Nat.toDigits 10 value.toInt.toNat with
    | nil => exact absurd hd Nat.toDigits_ne_nil
    | cons first more =>
      obtain ⟨hf, hm⟩ := List.forall_mem_cons.mp (hd ▸ hdigit value.toInt.toNat)
      have hi := isIdentifierRest_of_isDigit hf
      refine ⟨first, more ++ suffix, rfl, isBlank_of_isIdentifierRest hi, ?_, ?_⟩
      · rintro rfl
        exact absurd hf (by decide)
      · rw [lexToken_of_isIdentifierRest hi, startsNumber, hf, Bool.true_or, if_pos rfl,
          List.append_assoc]
        apply lexNumber_of_digits hm he
        have hne : first ≠ '-' := by
          rintro rfl
          exact absurd hf (by decide)
        rw [if_neg hne, ← hd, Text.ofDigits_toDigits]
        omega
  · next h0 =>
    have hm := hdigit (-value.toInt).toNat
    refine ⟨'-', Nat.toDigits 10 (-value.toInt).toNat ++ suffix, ?_, by decide, by decide, ?_⟩
    · rw [String.toList_append, Nat.toList_repr]
      rfl
    · have hs (after : List Char) :
          startsNumber '-' (Nat.toDigits 10 (-value.toInt).toNat ++ after) = true := by
        cases hd : Nat.toDigits 10 (-value.toInt).toNat with
        | nil => exact absurd hd Nat.toDigits_ne_nil
        | cons first more =>
          rw [hd] at hm
          simp [startsNumber, hm first List.mem_cons_self]
      rw [List.append_assoc, lexToken_of_not_mem (by decide), if_pos (hs _)]
      apply lexNumber_of_digits hm he
      rw [if_pos rfl, Text.ofDigits_toDigits]
      omega

/-- A number of 64 bits in decimal is read as this number where nothing continues it. -/
theorem reads_number (value : Int64) {rest : List Char} (hr : Ends rest) :
    Reads (toString value.toInt).toList rest (.number value) := by
  rw [← List.append_nil (toString value.toInt).toList]
  exact reads_number_append value (.inr ⟨rfl, hr⟩)

/-! ### Control characters -/

private theorem isControl_digitChar :
    ∀ digit < 16, Text.isControl (Nat.digitChar digit) = false := by
  decide

private theorem isControl_of_mem_quoteChar {c d : Char} (h : d ∈ quoteChar c) :
    Text.isControl d = false := by
  unfold quoteChar at h
  split at h
  case h_7 =>
    split at h
    · next hc =>
      have hlt : c.toNat < 256 := by
        simp [Text.isControl] at hc
        omega
      have hh := isControl_digitChar (c.toNat / 16) (by omega)
      have hl := isControl_digitChar (c.toNat % 16) (by omega)
      rw [Text.hexPadded_of_lt hlt] at h
      simp only [List.cons_append, List.nil_append, List.mem_cons, List.not_mem_nil, or_false] at h
      rcases h with rfl | rfl | rfl | rfl | rfl | rfl
      · rfl
      · rfl
      · rfl
      · rfl
      · exact hh
      · exact hl
    · next hc =>
      obtain rfl := List.mem_singleton.mp h
      exact Bool.eq_false_iff.mpr hc
  all_goals
    simp only [List.mem_cons, List.not_mem_nil, or_false] at h
    rcases h with rfl | rfl
    · rfl
    · rfl

/-- No control character stands in a string of the predicate language as it is. -/
theorem any_isControl_quote (value : String) :
    (quote value).toList.any Text.isControl = false := by
  rw [quote, String.toList_ofList, List.any_eq_false]
  intro c hc
  rw [Bool.not_eq_true]
  simp only [List.cons_append, List.mem_cons, List.mem_append, List.mem_flatMap,
    List.not_mem_nil, or_false] at hc
  rcases hc with rfl | ⟨plain, _, hc⟩ | rfl
  · rfl
  · exact isControl_of_mem_quoteChar hc
  · rfl

end MethodPrint
