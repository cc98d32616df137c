import MethodPrint.Text.Numeral

/-!
# Numerals are read back

The numerals that are written for a number are read as this number: decimal ones of any length, and
the four hexadecimal digits of a control character.
-/

namespace MethodPrint.Text

/-- The decimal digits of a number write this number. -/
theorem ofDigits_toDigits (n : Nat) : ofDigits (Nat.toDigits 10 n) = n :=
  Nat.ofDigitChars_ten_toDigits

/-- A decimal numeral consists of digits. -/
theorem isDigit_of_mem_toDigits {n : Nat} {c : Char} (h : c ∈ Nat.toDigits 10 n) :
    c.isDigit = true := Nat.isDigit_of_mem_toDigits (by decide) (by decide) h

/-- A decimal numeral has a first digit and maybe more. -/
theorem exists_toDigits (n : Nat) : ∃ first more, Nat.toDigits 10 n = first :: more ∧
    first.isDigit = true ∧ ∀ c ∈ more, c.isDigit = true := by
  cases hd : Nat.toDigits 10 n with
  | nil => exact absurd hd Nat.toDigits_ne_nil
  | cons first more =>
    have h : ∀ c ∈ first :: more, c.isDigit = true :=
      fun _ hc ↦ isDigit_of_mem_toDigits (hd ▸ hc)
    exact ⟨first, more, rfl, List.forall_mem_cons.mp h⟩

/-- The numeral of a number has no leading zero unless it is zero. -/
theorem head?_toDigits_ne_zero {n : Nat} (h : n ≠ 0) : (Nat.toDigits 10 n).head? ≠ some '0' := by
  induction n using Nat.strongRecOn with
  | ind n ih =>
    by_cases hn : n < 10
    · rw [Nat.toDigits_of_lt_base hn, List.head?_cons, ne_eq, Option.some.injEq,
        Nat.digitChar_eq_zero]
      exact h
    · have hhead := ih (n / 10) (by omega) (by omega)
      rw [Nat.toDigits_of_base_le (by decide) (by omega), List.head?_append,
        List.head?_eq_some_head Nat.toDigits_ne_nil, Option.some_or]
      rwa [List.head?_eq_some_head Nat.toDigits_ne_nil] at hhead

/-- A hexadecimal digit is read as its value. -/
theorem hexDigit?_digitChar : ∀ digit < 16, hexDigit? (Nat.digitChar digit) = some digit := by
  decide

/-- The padded numeral of a small number has two digits of its own. -/
theorem hexPadded_add_two (width : Nat) {n : Nat} (h : n < 256) :
    hexPadded (width + 2) n =
      List.replicate width '0' ++ [Nat.digitChar (n / 16), Nat.digitChar (n % 16)] := by
  rw [hexPadded, hex]
  by_cases hn : n < 16
  · rw [Nat.toDigits_of_lt_base hn, Nat.div_eq_of_lt hn, Nat.mod_eq_of_lt hn]
    simp [List.replicate_succ']
  · rw [Nat.toDigits_of_base_le (by decide) (by omega), Nat.toDigits_of_lt_base (by omega)]
    simp

/-- The numeral of four digits of a small number starts with two zeros. -/
theorem hexPadded_of_lt {n : Nat} (h : n < 256) :
    hexPadded 4 n = ['0', '0', Nat.digitChar (n / 16), Nat.digitChar (n % 16)] :=
  hexPadded_add_two 2 h

/-- The padded numeral of a small number writes this number. -/
theorem hexQuad_of_lt {n : Nat} (h : n < 256) :
    hexQuad? '0' '0' (Nat.digitChar (n / 16)) (Nat.digitChar (n % 16)) = some n := by
  have h0 : hexDigit? '0' = some 0 := rfl
  rw [hexQuad?, h0, hexDigit?_digitChar _ (by omega), hexDigit?_digitChar _ (by omega)]
  simp only [bind, Option.bind, pure, Option.some.injEq]
  omega

/-- The longest start of a text that is made of certain characters ends where none of them
follows. -/
theorem takeWhile_append_of_head? {p : Char → Bool} {text rest : List Char}
    (ht : ∀ c ∈ text, p c = true) (hr : ∀ c ∈ rest.head?, p c = false) :
    (text ++ rest).takeWhile p = text := by
  rw [List.takeWhile_append_of_pos ht]
  cases rest with
  | nil => simp
  | cons c rest => simp [hr c rfl]

end MethodPrint.Text
