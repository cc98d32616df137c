import Mathlib.Data.Nat.Bitwise
import MethodPrint.Method.AccessFlags

/-!
# Flag words and their names

Every flag of the table is a single bit with a name of its own. Joining the bits of a word that the
table has gives the named part of the word, so that a word without unnamed bits is written by its
names without loss.
-/

namespace MethodPrint.AccessFlag

/-- A word has a flag of the table, which is a single bit, wholly or not at all. -/
theorem and_bit_eq (flags : UInt32) {flag : AccessFlag} (h : flag ∈ table) :
    flags &&& flag.bit = 0 ∨ flags &&& flag.bit = flag.bit := by
  have hbit : ∀ flag ∈ table, ∃ place < 32, flag.bit.toNat = 2 ^ place := by decide
  obtain ⟨place, _, hb⟩ := hbit flag h
  rw [← UInt32.toNat_inj, ← UInt32.toNat_inj, UInt32.toNat_and, hb, Nat.and_two_pow]
  cases flags.toNat.testBit place with
  | false => exact .inl (Nat.zero_mul _)
  | true => exact .inr (Nat.one_mul _)

/-- A name of the table stands for its own bit. -/
theorem bit?_name : ∀ flag ∈ table, bit? flag.name = some flag.bit := by decide

private theorem and_or (a b c : UInt32) : a &&& (b ||| c) = (a &&& b) ||| (a &&& c) := by
  rw [← UInt32.toBitVec_inj]
  simp [BitVec.and_or_distrib_left]

private theorem foldl_filter_eq (flags : UInt32) {list : List AccessFlag}
    (h : ∀ flag ∈ list, flag ∈ table) (mask : UInt32) :
    (list.filter fun flag ↦ flags &&& flag.bit != 0).foldl (fun word flag ↦ word ||| flag.bit)
        (flags &&& mask) =
      flags &&& list.foldl (fun word flag ↦ word ||| flag.bit) mask := by
  induction list generalizing mask with
  | nil => rfl
  | cons flag list ih =>
    obtain ⟨hf, h⟩ := List.forall_mem_cons.mp h
    rw [List.foldl_cons, ← ih h, and_or]
    by_cases h0 : flags &&& flag.bit = 0
    · rw [List.filter_cons_of_neg (by simp [h0]), h0, UInt32.or_zero]
    · rw [List.filter_cons_of_pos (by simp [h0]), List.foldl_cons]
      rw [(and_bit_eq flags hf).resolve_left h0]

/-- The bits of a word that the table has, joined, are the named part of the word. -/
theorem foldl_filter_table (flags : UInt32) :
    (table.filter fun flag ↦ flags &&& flag.bit != 0).foldl (fun word flag ↦ word ||| flag.bit) 0 =
      named flags := by
  have h := foldl_filter_eq flags (fun _ h ↦ h) 0
  rw [UInt32.and_zero] at h
  exact h

/-- A word without unnamed bits is its named part. -/
theorem named_of_unnamed_eq_zero {flags : UInt32} (h : unnamed flags = 0) :
    named flags = flags := by
  have hs : flags = named flags ||| unnamed flags := by
    rw [named, unnamed, ← and_or, UInt32.or_not_self, UInt32.and_neg_one]
  rw [h, UInt32.or_zero] at hs
  exact hs.symm

end MethodPrint.AccessFlag
