import MethodPrint.Digest
import MethodPrint.Proofs.Text.Numeral

/-!
# Bytes of texts

The bytes of a text in UTF-8 determine the text. No text has the byte 0xff, and only the character
with the code zero has the byte zero. The hexadecimal text of bytes determines the bytes.
-/

namespace MethodPrint

/-! ### UTF-8 -/

/-- The bytes of a text are those of its characters. -/
theorem utf8Bytes_eq (text : String) :
    utf8Bytes text = text.toList.flatMap String.utf8EncodeChar := by
  rw [utf8Bytes, String.toUTF8_eq_toByteArray, ← String.utf8Encode_toList, List.utf8Encode]
  simp

/-- The bytes of a text determine it. -/
theorem utf8Bytes_inj {a b : String} : utf8Bytes a = utf8Bytes b ↔ a = b := by
  refine ⟨fun h ↦ ?_, fun h ↦ h ▸ rfl⟩
  exact String.toByteArray_inj.mp (ByteArray.ext (Array.toList_inj.mp h))

private theorem exists_of_mem_utf8EncodeChar {c : Char} {byte : UInt8}
    (h : byte ∈ String.utf8EncodeChar c) :
    ∃ n < 255, byte = UInt8.ofNat n ∧ (n = 0 → c.val.toNat = 0) := by
  dsimp only [String.utf8EncodeChar] at h
  split at h
  · rw [List.mem_singleton] at h
    exact ⟨_, by omega, h, id⟩
  · split at h
    · simp only [List.mem_cons, List.not_mem_nil, or_false] at h
      rcases h with h | h <;> exact ⟨_, by omega, h, by omega⟩
    · split at h
      · simp only [List.mem_cons, List.not_mem_nil, or_false] at h
        rcases h with h | h | h <;> exact ⟨_, by omega, h, by omega⟩
      · simp only [List.mem_cons, List.not_mem_nil, or_false] at h
        rcases h with h | h | h | h <;> exact ⟨_, by omega, h, by omega⟩

private theorem toNat_ofNat_of_lt {n : Nat} (h : n < 255) : (UInt8.ofNat n).toNat = n := by
  rw [UInt8.toNat_ofNat', Nat.mod_eq_of_lt (by omega)]

/-- No text has the byte 0xff. -/
theorem not_mem_utf8Bytes (text : String) : 0xff ∉ utf8Bytes text := by
  intro h
  rw [utf8Bytes_eq] at h
  obtain ⟨c, _, hb⟩ := List.mem_flatMap.mp h
  obtain ⟨n, hn, he, _⟩ := exists_of_mem_utf8EncodeChar hb
  have hv := congrArg UInt8.toNat he
  rw [toNat_ofNat_of_lt hn] at hv
  have h255 : (0xff : UInt8).toNat = 255 := rfl
  omega

/-- A text without the character with the code zero does not have the byte zero. -/
theorem zero_not_mem_utf8Bytes {text : String} (h : '\x00' ∉ text.toList) :
    0 ∉ utf8Bytes text := by
  intro hm
  rw [utf8Bytes_eq] at hm
  obtain ⟨c, hc, hb⟩ := List.mem_flatMap.mp hm
  obtain ⟨n, hn, he, hz⟩ := exists_of_mem_utf8EncodeChar hb
  have hv := congrArg UInt8.toNat he
  rw [toNat_ofNat_of_lt hn] at hv
  have hzero : c = '\x00' := Char.ext (UInt32.toNat_inj.mp (hz (hv : 0 = n).symm))
  exact h (hzero ▸ hc)

/-! ### Hexadecimal texts -/

private theorem digitChar_inj {m n : Nat} (hm : m < 16) (hn : n < 16)
    (h : Nat.digitChar m = Nat.digitChar n) : m = n := by
  have hd := congrArg Text.hexDigit? h
  rwa [Text.hexDigit?_digitChar m hm, Text.hexDigit?_digitChar n hn, Option.some.injEq] at hd

private theorem hexPadded_two (byte : UInt8) : Text.hexPadded 2 byte.toNat =
    [Nat.digitChar (byte.toNat / 16), Nat.digitChar (byte.toNat % 16)] :=
  Text.hexPadded_add_two 0 byte.toNat_lt

/-- The hexadecimal text of bytes determines them. -/
theorem hexText_inj {a b : List UInt8} : hexText a = hexText b ↔ a = b := by
  refine ⟨fun h ↦ ?_, fun h ↦ h ▸ rfl⟩
  replace h := String.ofList_injective h
  simp only [hexPadded_two] at h
  induction a generalizing b with
  | nil =>
    cases b with
    | nil => rfl
    | cons other b => simp at h
  | cons byte a ih =>
    cases b with
    | nil => simp at h
    | cons other b =>
      simp only [List.flatMap_cons, List.cons_append, List.nil_append, List.cons.injEq] at h
      have hb := byte.toNat_lt
      have ho := other.toNat_lt
      have hhigh := digitChar_inj (by omega) (by omega) h.1
      have hlow := digitChar_inj (by omega) (by omega) h.2.1
      rw [UInt8.toNat_inj.mp (show byte.toNat = other.toNat by omega), ih h.2.2]

end MethodPrint
