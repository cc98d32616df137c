import MethodPrint.Json.Record
import MethodPrint.Proofs.Json.Layout

/-!
# What is written is read back

Whatever the blanks between them, a reader meets in the text of a value what the value is made of,
and nothing is left after it. Reading a compact or a pretty text is therefore reading the value.
-/

namespace MethodPrint.Json

/-! ### What is met in the text of a value -/

mutual

/-- What a reader meets in the text of a value. -/
def Value.tree : Value → Tree
  | .null => .null
  | .number value => integerTree value
  | .string value => .string (.ok value)
  | .array items => .array (itemsTree items)
  | .object fields => .object (fieldsTree fields)

/-- What a reader meets in the text of items. -/
def itemsTree : List Value → Items
  | [] => .closed
  | item :: items => .item item.tree (itemsTree items)

/-- What a reader meets in the text of fields. -/
def fieldsTree : List (String × Value) → Entries
  | [] => .closed
  | (name, value) :: fields => .entry (.ok name) value.tree (fieldsTree fields)

end

/-! ### Blanks -/

private theorem skipBlanks_append {blanks : List Char} (hb : ∀ c ∈ blanks, isBlank c = true)
    (text : List Char) : skipBlanks (blanks ++ text) = skipBlanks text :=
  List.dropWhile_append_of_pos hb

private theorem skipBlanks_cons {c : Char} (hc : isBlank c = false) (text : List Char) :
    skipBlanks (c :: text) = c :: text := by
  simp [skipBlanks, hc]

private theorem readTree_append {blanks : List Char} (hb : ∀ c ∈ blanks, isBlank c = true)
    (fuel : Nat) (text : List Char) : readTree fuel (blanks ++ text) = readTree fuel text := by
  cases fuel with
  | zero => rfl
  | succ fuel => rw [readTree, readTree, skipBlanks_append hb]

private theorem readEntry_append {blanks : List Char} (hb : ∀ c ∈ blanks, isBlank c = true)
    (fuel : Nat) (text : List Char) : readEntry fuel (blanks ++ text) = readEntry fuel text := by
  cases fuel with
  | zero => rfl
  | succ fuel => rw [readEntry, readEntry, skipBlanks_append hb]

private theorem endsNumber_of_isBlank {c : Char} (hc : isBlank c = true) (rest : List Char) :
    EndsNumber (c :: rest) := by
  simp only [isBlank, Bool.or_eq_true, beq_iff_eq] at hc
  rintro _ ⟨⟩
  rcases hc with ((rfl | rfl) | rfl) | rfl <;> decide

private theorem endsNumber_append {blanks rest : List Char}
    (hb : ∀ c ∈ blanks, isBlank c = true) (hr : EndsNumber rest) : EndsNumber (blanks ++ rest) := by
  cases blanks with
  | nil => exact hr
  | cons c blanks => exact endsNumber_of_isBlank (hb c List.mem_cons_self) _

/-! ### First characters -/

/-- A sign or a digit. -/
private def StartsNumber (c : Char) : Prop := c = '-' ∨ c.isDigit = true

private theorem not_mem_of_startsNumber {c : Char} (h : StartsNumber c) :
    c ∉ ['[', ']', '{', '"', 'n', 't', 'f', ' ', '\t', '\n', '\r'] := by
  intro hm
  simp only [List.mem_cons, List.not_mem_nil, or_false] at hm
  rcases hm with rfl | rfl | rfl | rfl | rfl | rfl | rfl | rfl | rfl | rfl | rfl <;>
    exact absurd h (by unfold StartsNumber; decide)

private theorem exists_numberText (value : Int) :
    ∃ first more, numberText value = first :: more ∧ StartsNumber first := by
  rw [numberText_eq]
  split
  · exact ⟨'-', _, rfl, .inl rfl⟩
  · obtain ⟨first, more, hd, hf, _⟩ := Text.exists_toDigits value.natAbs
    exact ⟨first, more, hd, .inr hf⟩

private theorem readTree_of_startsNumber {c : Char} (h : StartsNumber c) (fuel : Nat)
    (rest : List Char) : readTree (fuel + 1) (c :: rest) = readNumber (c :: rest) := by
  have hm := not_mem_of_startsNumber h
  simp only [List.mem_cons, List.not_mem_nil, or_false, not_or] at hm
  have hb : isBlank c = false := by simp [isBlank, hm]
  unfold readTree
  rw [skipBlanks_cons hb]
  split
  case h_8 => next he =>
    cases he
    exact if_pos h
  all_goals simp_all

private theorem exists_text (layout : Layout) (level : Nat) (value : Value) :
    ∃ first more, layout.text level value = first :: more ∧ isBlank first = false ∧
      first ≠ ']' := by
  cases value with
  | null => exact ⟨'n', _, rfl, rfl, by decide⟩
  | number value =>
    obtain ⟨first, more, ht, hs⟩ := exists_numberText value
    have hm := not_mem_of_startsNumber hs
    simp only [List.mem_cons, List.not_mem_nil, or_false, not_or] at hm
    exact ⟨first, more, ht, by simp [isBlank, hm], hm.2.1⟩
  | string value => exact ⟨'"', _, rfl, rfl, by decide⟩
  | array items =>
    cases items with
    | nil => exact ⟨'[', _, rfl, rfl, by decide⟩
    | cons item items => exact ⟨'[', _, rfl, rfl, by decide⟩
  | object fields =>
    cases fields with
    | nil => exact ⟨'{', _, rfl, rfl, by decide⟩
    | cons field fields => exact ⟨'{', _, rfl, rfl, by decide⟩

/-! ### Values -/

private theorem readItems_append {blanks : List Char} (hb : ∀ c ∈ blanks, isBlank c = true)
    (fuel : Nat) {text : List Char}
    (ht : ∃ first more, text = first :: more ∧ isBlank first = false ∧ first ≠ ']')
    (rest : List Char) :
    readItems (fuel + 1) (blanks ++ (text ++ rest)) = readItem fuel (text ++ rest) := by
  obtain ⟨first, more, rfl, hn, hc⟩ := ht
  unfold readItems
  rw [skipBlanks_append hb, List.cons_append, skipBlanks_cons hn]
  split
  · next he => cases he
  · next he => exact absurd (List.cons.inj he).1 hc
  · rfl

private theorem readEntries_append {blanks : List Char} (hb : ∀ c ∈ blanks, isBlank c = true)
    (fuel : Nat) (name : String) (rest : List Char) :
    readEntries (fuel + 1) (blanks ++ (stringText name ++ rest)) =
      readEntry fuel (stringText name ++ rest) := by
  rw [readEntries, skipBlanks_append hb]
  rfl

private theorem readItem_of {fuel : Nat} {text more rest : List Char} {tree : Tree}
    {items : Items} (ht : readTree fuel text = (tree, more))
    (hm : readMoreItems fuel (skipBlanks more) = (items, rest)) :
    readItem (fuel + 1) text = (.item tree items, rest) := by
  rw [readItem, ht]
  simp only [hm]

private theorem readEntry_of {fuel : Nat} (name : String) {text more rest : List Char}
    {tree : Tree} {entries : Entries} (ht : readTree fuel text = (tree, more))
    (hm : readMoreEntries (fuel + 1) (skipBlanks more) = (entries, rest)) :
    readEntry (fuel + 2) (stringText name ++ ':' :: text) =
      (.entry (.ok name) tree entries, rest) := by
  obtain ⟨chars, hs, hr⟩ := readChars_stringText name (':' :: text)
  rw [hs, readEntry, skipBlanks_cons rfl]
  simp only [hr, skipBlanks_cons (show isBlank ':' = false from rfl), readNamed, ht, hm]
  simp [Except.map]

variable (layout : Layout)

private theorem endsNumber_moreItems (level : Nat) (items : List Value) (rest : List Char) :
    EndsNumber (layout.moreItems level items ++ rest) := by
  cases items with
  | nil =>
    rw [Layout.moreItems, List.append_assoc]
    exact endsNumber_append (layout.gap_blank level) (endsNumber_cons rfl (by decide) _)
  | cons item items => exact endsNumber_cons rfl (by decide) _

private theorem endsNumber_moreFields (level : Nat) (fields : List (String × Value))
    (rest : List Char) : EndsNumber (layout.moreFields level fields ++ rest) := by
  cases fields with
  | nil =>
    rw [Layout.moreFields, List.append_assoc]
    exact endsNumber_append (layout.gap_blank level) (endsNumber_cons rfl (by decide) _)
  | cons field fields => exact endsNumber_cons rfl (by decide) _

mutual

/-- With three steps for each character, the text of a value is read to its end. -/
theorem readTree_text (level : Nat) : ∀ (value : Value) (fuel : Nat) (rest : List Char),
    3 * (layout.text level value).length ≤ fuel → EndsNumber rest →
    readTree fuel (layout.text level value ++ rest) = (value.tree, rest)
  | .null, fuel, rest, hf, _ => by
    obtain ⟨fuel, rfl⟩ : ∃ n, fuel = n + 1 := ⟨fuel - 1, by simp [Layout.text] at hf; omega⟩
    rfl
  | .number value, fuel, rest, hf, hr => by
    obtain ⟨first, more, ht, hs⟩ := exists_numberText value
    rw [Layout.text] at hf ⊢
    obtain ⟨fuel, rfl⟩ : ∃ n, fuel = n + 1 := ⟨fuel - 1, by simp [ht] at hf; omega⟩
    rw [Value.tree, ← readNumber_numberText value hr, ht, List.cons_append,
      readTree_of_startsNumber hs]
  | .string value, fuel, rest, hf, _ => by
    obtain ⟨text, ht, hs⟩ := readChars_stringText value rest
    obtain ⟨fuel, rfl⟩ : ∃ n, fuel = n + 1 :=
      ⟨fuel - 1, by simp [Layout.text, stringText] at hf; omega⟩
    rw [Layout.text, ht]
    simp [readTree, skipBlanks_cons (show isBlank '"' = false from rfl), readString, hs, Value.tree,
      Except.map]
  | .array [], fuel, rest, hf, _ => by
    obtain ⟨fuel, rfl⟩ : ∃ n, fuel = n + 2 := ⟨fuel - 2, by simp [Layout.text] at hf; omega⟩
    rfl
  | .array (item :: items), fuel, rest, hf, _ => by
    -- The bracket pays for the three calls that lead to the first item.
    simp only [Layout.text, List.length_append, List.length_cons] at hf
    obtain ⟨fuel, rfl⟩ : ∃ n, fuel = n + 3 := ⟨fuel - 3, by omega⟩
    have hitem := readTree_text (level + 1) item fuel _ (by omega)
      (endsNumber_moreItems layout level items rest)
    have hmore := readMoreItems_text level items fuel rest (by omega)
    have h := readItems_append (layout.gap_blank (level + 1)) (fuel + 1)
      (exists_text layout (level + 1) item) (layout.moreItems level items ++ rest)
    rw [readItem_of hitem hmore] at h
    simp only [Layout.text, List.append_assoc, List.cons_append]
    rw [readTree, skipBlanks_cons rfl]
    simp only [h]
    rfl
  | .object [], fuel, rest, hf, _ => by
    obtain ⟨fuel, rfl⟩ : ∃ n, fuel = n + 2 := ⟨fuel - 2, by simp [Layout.text] at hf; omega⟩
    rfl
  | .object ((name, value) :: fields), fuel, rest, hf, _ => by
    -- The brace and the colon pay for the four calls that lead to the first value.
    simp only [Layout.text, List.length_append, List.length_cons] at hf
    obtain ⟨fuel, rfl⟩ : ∃ n, fuel = n + 4 := ⟨fuel - 4, by omega⟩
    have hvalue := readTree_text (level + 1) value fuel _ (by omega)
      (endsNumber_moreFields layout level fields rest)
    have hmore := readMoreFields_text level fields (fuel + 1) rest (by omega)
    have h := readEntries_append (layout.gap_blank (level + 1)) (fuel + 2) name
      (':' :: (layout.space ++ (layout.text (level + 1) value ++
        (layout.moreFields level fields ++ rest))))
    rw [readEntry_of name ((readTree_append layout.space_blank fuel _).trans hvalue) hmore] at h
    simp only [Layout.text, List.append_assoc, List.cons_append]
    rw [readTree, skipBlanks_cons rfl]
    simp only [h]
    rfl

private theorem readMoreItems_text (level : Nat) : ∀ (items : List Value) (fuel : Nat)
    (rest : List Char), 3 * (layout.moreItems level items).length ≤ fuel →
    readMoreItems fuel (skipBlanks (layout.moreItems level items ++ rest)) =
      (itemsTree items, rest)
  | [], fuel, rest, hf => by
    obtain ⟨fuel, rfl⟩ : ∃ n, fuel = n + 1 := ⟨fuel - 1, by simp [Layout.moreItems] at hf; omega⟩
    rw [Layout.moreItems, List.append_assoc, skipBlanks_append (layout.gap_blank level)]
    rfl
  | item :: items, fuel, rest, hf => by
    simp only [Layout.moreItems, List.length_append, List.length_cons] at hf
    obtain ⟨fuel, rfl⟩ : ∃ n, fuel = n + 2 := ⟨fuel - 2, by omega⟩
    have hitem := readTree_text (level + 1) item fuel _ (by omega)
      (endsNumber_moreItems layout level items rest)
    have hmore := readMoreItems_text level items fuel rest (by omega)
    have h := readItem_of
      ((readTree_append (layout.gap_blank (level + 1)) fuel _).trans hitem) hmore
    simp only [Layout.moreItems, List.append_assoc, List.cons_append]
    rw [skipBlanks_cons rfl, readMoreItems, h]
    rfl

private theorem readMoreFields_text (level : Nat) : ∀ (fields : List (String × Value)) (fuel : Nat)
    (rest : List Char), 3 * (layout.moreFields level fields).length ≤ fuel →
    readMoreEntries fuel (skipBlanks (layout.moreFields level fields ++ rest)) =
      (fieldsTree fields, rest)
  | [], fuel, rest, hf => by
    obtain ⟨fuel, rfl⟩ : ∃ n, fuel = n + 1 := ⟨fuel - 1, by simp [Layout.moreFields] at hf; omega⟩
    rw [Layout.moreFields, List.append_assoc, skipBlanks_append (layout.gap_blank level)]
    rfl
  | (name, value) :: fields, fuel, rest, hf => by
    simp only [Layout.moreFields, List.length_append, List.length_cons] at hf
    obtain ⟨fuel, rfl⟩ : ∃ n, fuel = n + 3 := ⟨fuel - 3, by omega⟩
    have hvalue := readTree_text (level + 1) value fuel _ (by omega)
      (endsNumber_moreFields layout level fields rest)
    have hmore := readMoreFields_text level fields (fuel + 1) rest (by omega)
    have h := readEntry_of name
      ((readTree_append layout.space_blank fuel _).trans hvalue) hmore
    simp only [Layout.moreFields, List.append_assoc, List.cons_append]
    rw [skipBlanks_cons rfl, readMoreEntries, readEntry_append (layout.gap_blank (level + 1)), h]
    rfl

end

/-- Reading the text of a value, whatever its blanks, is reading what is met in it. -/
theorem readText_text {α : Type} (read : Read α) (level : Nat) (value : Value) :
    readText read (String.ofList (layout.text level value)) = read value.tree := by
  have h := readTree_text layout level value (3 * (layout.text level value).length + 3) []
    (by omega) (by simp [EndsNumber])
  rw [List.append_nil] at h
  rw [readText, treeOf, String.toList_ofList, h]
  dsimp only
  cases read value.tree with
  | error fault => rfl
  | ok result => rfl

/-- Reading the compact text of a value is reading what is met in it. -/
theorem readText_compactText {α : Type} (read : Read α) (value : Value) :
    readText read value.compactText = read value.tree := by
  rw [Value.compactText, ← Layout.text_compact 0, readText_text]

/-- Reading the pretty text of a value is reading what is met in it. -/
theorem readText_prettyText {α : Type} (read : Read α) (value : Value) :
    readText read value.prettyText = read value.tree := by
  rw [Value.prettyText, ← Layout.text_pretty, readText_text]

end MethodPrint.Json
