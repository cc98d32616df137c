import MethodPrint.Proofs.Json.Reading

/-!
# Compact texts

A compact text is all on one line: control characters occur in it only by their codes. Values with
the same compact text look alike to every reader.
-/

namespace MethodPrint.Json

private theorem le_toNat_digitChar : ∀ digit < 16, 0x20 ≤ (Nat.digitChar digit).toNat := by
  decide

private theorem le_toNat_of_isDigit {c : Char} (h : c.isDigit = true) : 0x20 ≤ c.toNat := by
  have hl : 48 ≤ c.toNat :=
    UInt32.le_iff_toNat_le.mp (of_decide_eq_true (Bool.and_eq_true_iff.mp h).1)
  omega

private theorem le_toNat_of_mem_escapeChar {c char : Char} (h : char ∈ escapeChar c) :
    0x20 ≤ char.toNat := by
  unfold escapeChar at h
  split at h
  case h_8 =>
    split at h
    · next hc =>
      rw [Text.hexPadded_of_lt (show c.toNat < 256 by omega)] at h
      simp only [List.cons_append, List.nil_append, List.mem_cons, List.not_mem_nil,
        or_false] at h
      rcases h with rfl | rfl | rfl | rfl | rfl | rfl
      · decide
      · decide
      · decide
      · decide
      · exact le_toNat_digitChar _ (by omega)
      · exact le_toNat_digitChar _ (by omega)
    · next hc =>
      rw [List.mem_singleton] at h
      subst h
      omega
  all_goals
    simp only [List.mem_cons, List.not_mem_nil, or_false] at h
    rcases h with rfl | rfl <;> decide

/-- A text without control characters. -/
def IsLine (text : List Char) : Prop := ∀ c ∈ text, 0x20 ≤ c.toNat

private theorem isLine_append {a b : List Char} (ha : IsLine a) (hb : IsLine b) : IsLine (a ++ b) :=
  fun c hc ↦ (List.mem_append.mp hc).elim (ha c) (hb c)

private theorem isLine_cons {c : Char} {text : List Char} (hc : 0x20 ≤ c.toNat) (h : IsLine text) :
    IsLine (c :: text) := List.forall_mem_cons.mpr ⟨hc, h⟩

private theorem isLine_stringText (value : String) : IsLine (stringText value) := by
  refine isLine_cons (by decide) (isLine_append ?_ (by simp [IsLine]))
  intro c hc
  obtain ⟨_, _, hm⟩ := List.mem_flatMap.mp hc
  exact le_toNat_of_mem_escapeChar hm

private theorem isLine_numberText (value : Int) : IsLine (numberText value) := by
  rw [numberText_eq]
  refine isLine_append ?_ fun c hc ↦ le_toNat_of_isDigit (Text.isDigit_of_mem_toDigits hc)
  split <;> simp [IsLine]

mutual

/-- A compact text has no control characters. -/
theorem isLine_compact : ∀ value, IsLine (compact value)
  | .null => by simp [compact, IsLine]
  | .number value => isLine_numberText value
  | .string value => isLine_stringText value
  | .array items =>
    isLine_cons (by decide) (isLine_append (isLine_compactItems items) (by simp [IsLine]))
  | .object fields =>
    isLine_cons (by decide) (isLine_append (isLine_compactFields fields) (by simp [IsLine]))

private theorem isLine_compactItems : ∀ items, IsLine (compactItems items)
  | [] => by simp [compactItems, IsLine]
  | [item] => isLine_compact item
  | item :: next :: items =>
    isLine_append (isLine_compact item)
      (isLine_cons (by decide) (isLine_compactItems (next :: items)))

private theorem isLine_compactFields : ∀ fields, IsLine (compactFields fields)
  | [] => by simp [compactFields, IsLine]
  | [(name, value)] =>
    isLine_append (isLine_stringText name) (isLine_cons (by decide) (isLine_compact value))
  | (name, value) :: next :: fields => by
    have h := isLine_compactFields (next :: fields)
    exact isLine_append (isLine_append (isLine_stringText name)
      (isLine_cons (by decide) (isLine_compact value))) (isLine_cons (by decide) h)

end

/-- Values with the same compact text look alike to readers. -/
theorem tree_eq_of_compactText {a b : Value} (h : a.compactText = b.compactText) :
    a.tree = b.tree := by
  have ha := readText_compactText .ok a
  rw [h, readText_compactText] at ha
  exact (Except.ok.inj ha).symm

/-- Numbers are told apart by their digits, whatever follows them. -/
theorem numberText_append_inj {m n : Nat} {rest others : List Char} (hr : EndsNumber rest)
    (ho : EndsNumber others) (h : numberText m ++ rest = numberText n ++ others) : m = n := by
  have htext (n : Nat) : numberText n = Nat.toDigits 10 n := by simp [numberText_eq]
  rw [htext, htext] at h
  have hd := congrArg (List.takeWhile Char.isDigit) h
  rw [takeWhile_toDigits m hr, takeWhile_toDigits n ho] at hd
  rw [← Text.ofDigits_toDigits m, hd, Text.ofDigits_toDigits]

end MethodPrint.Json
