import MethodPrint.Json.Tree
import MethodPrint.Text.Numeral

/-!
# Reading JSON numbers

A number written without a point or an exponent is an integer as long as it has 64 bits. All other
numbers are read only to find out whether they are beyond the largest floating point number: the
leading digits that fit into 64 bits count, each of the others moves the point by one place.
-/

namespace MethodPrint.Json

/-- Rounds a number to 53 binary digits, a half to the even neighbour. -/
def roundTo53 (n : Nat) : Nat :=
  if n < 1 <<< 53 then n
  else
    let shift := Nat.log2 n - 52
    let kept := n >>> shift
    let half := 1 <<< (shift - 1)
    let rest := n % (1 <<< shift)
    if rest > half ∨ (rest = half ∧ kept % 2 = 1) then (kept + 1) <<< shift
    else kept <<< shift

/-- Whether a number and a power of ten have a product beyond all floating point numbers, after
both have been rounded to floating point numbers. -/
def isHuge (significand : Nat) (exponent : Int) : Bool :=
  significand != 0 && 0 ≤ exponent &&
    (308 < exponent ||
      1 <<< 1024 - 1 <<< 970 ≤ roundTo53 significand * roundTo53 (Nat.pow 10 exponent.toNat))

/-- Appends digits to a number as long as it has 64 bits: the number, and how many digits went into
it. -/
def significandFrom (number : Nat) : List Char → Nat × Nat
  | [] => (number, 0)
  | c :: cs =>
    let next := 10 * number + (c.toNat - '0'.toNat)
    if next < UInt64.size then
      let (result, n) := significandFrom next cs
      (result, n + 1)
    else (number, 0)

/-- What a number means to a reader, by its sign, its digits before and after the point, and the
sign and digits of its exponent. A number without a point or an exponent has no digits there. -/
def numberTree (negative : Bool) (whole fraction : List Char)
    (exponent : Option (Bool × List Char)) : Tree :=
  let value := Text.ofDigits whole
  let isInteger := fraction.isEmpty && exponent.isNone
  if isInteger && !negative && value < UInt64.size then .integer value
  else if isInteger && negative && value != 0 && value ≤ Int64.minValue.toInt.natAbs then
    .integer (-value)
  else
    let (head, n) := significandFrom 0 whole
    let (significand, m) := significandFrom head fraction
    let power : Int :=
      match exponent with
      | none => 0
      | some (true, digits) => -Text.ofDigits digits
      | some (false, digits) => Text.ofDigits digits
    if isHuge significand ((whole.length - n : Nat) - m + power) then .huge else .real

/-- The fault of a number that lacks a digit. One that the text ends in is cut short for a reader
that keeps it. -/
def digitFault (text : List Char) : Tree :=
  .brokenScalar (if text.isEmpty then .cutShort else .malformed) .malformed

/-- Reads an exponent after its letter: whether it is negative, and its digits. -/
def readExponent (text : List Char) : Except Tree ((Bool × List Char) × List Char) :=
  let (negative, text) :=
    match text with
    | '+' :: rest => (false, rest)
    | '-' :: rest => (true, rest)
    | _ => (false, text)
  let digits := text.takeWhile Char.isDigit
  if digits.isEmpty then .error (digitFault text)
  else .ok ((negative, digits), text.drop digits.length)

/-- Reads what follows the digits before the point. -/
def readFraction (negative : Bool) (whole text : List Char) : Tree × List Char :=
  let finish (fraction text : List Char) : Tree × List Char :=
    match text with
    | c :: rest =>
      if c = 'e' ∨ c = 'E' then
        match readExponent rest with
        | .error tree => (tree, [])
        | .ok (exponent, rest) => (numberTree negative whole fraction (some exponent), rest)
      else (numberTree negative whole fraction none, text)
    | [] => (numberTree negative whole fraction none, [])
  match text with
  | '.' :: rest =>
    let fraction := rest.takeWhile Char.isDigit
    if fraction.isEmpty then (digitFault rest, [])
    else finish fraction (rest.drop fraction.length)
  | _ => finish [] text

/-- Reads a number after its sign. A leading zero stands alone. -/
def readUnsigned (negative : Bool) (text : List Char) : Tree × List Char :=
  match text with
  | '0' :: rest =>
    if rest.head?.any Char.isDigit then (.brokenScalar .malformed .malformed, [])
    else readFraction negative ['0'] rest
  | _ =>
    let whole := text.takeWhile Char.isDigit
    if whole.isEmpty then (digitFault text, [])
    else readFraction negative whole (text.drop whole.length)

/-- Reads a number and returns what follows it. -/
def readNumber (text : List Char) : Tree × List Char :=
  match text with
  | '-' :: rest => readUnsigned true rest
  | _ => readUnsigned false text

end MethodPrint.Json
