/-!
# Numerals

Decimal and hexadecimal numerals over lists of characters: digits, values and the widths that the
formats ask for.
-/

namespace MethodPrint.Text

/-- The number that decimal digits write, the most significant first. -/
def ofDigits (digits : List Char) : Nat :=
  digits.foldl (fun n c ↦ 10 * n + (c.toNat - '0'.toNat)) 0

/-- The value of a hexadecimal digit of either case. -/
def hexDigit? (c : Char) : Option Nat :=
  if c.isDigit then some (c.toNat - '0'.toNat)
  else if 'a' ≤ c && c ≤ 'f' then some (c.toNat - 'a'.toNat + 10)
  else if 'A' ≤ c && c ≤ 'F' then some (c.toNat - 'A'.toNat + 10)
  else none

/-- The number that four hexadecimal digits write. -/
def hexQuad? (a b c d : Char) : Option Nat := do
  return (((← hexDigit? a) * 16 + (← hexDigit? b)) * 16 + (← hexDigit? c)) * 16 + (← hexDigit? d)

/-- The lower case hexadecimal numeral without leading zeros. -/
def hex (n : Nat) : List Char := Nat.toDigits 16 n

/-- The lower case hexadecimal numeral with leading zeros up to a width. -/
def hexPadded (width n : Nat) : List Char :=
  let digits := hex n
  List.replicate (width - digits.length) '0' ++ digits

/-- The number that a decimal numeral writes, if it is one: at least one digit and nothing else. -/
def decimal? (text : List Char) : Option Nat :=
  if !text.isEmpty && text.all Char.isDigit then some (ofDigits text) else none

/-- The last digit adds its value to ten times the number before it. -/
theorem ofDigits_concat (digits : List Char) (c : Char) :
    ofDigits (digits ++ [c]) = 10 * ofDigits digits + (c.toNat - '0'.toNat) := by
  simp [ofDigits]

/-- Padding reaches the width and never cuts digits off. -/
theorem length_hexPadded (width n : Nat) :
    (hexPadded width n).length = max width (hex n).length := by
  simp only [hexPadded, List.length_append, List.length_replicate]
  omega

end MethodPrint.Text
