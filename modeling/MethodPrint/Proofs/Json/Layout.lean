import MethodPrint.Proofs.Json.Scalar

/-!
# What is written is read back

The compact and the pretty text of a value differ in their blanks alone. Whatever the blanks, a
reader meets in the text of a value what the value is made of, and nothing is left after it.
-/

namespace MethodPrint.Json

/-! ### Layouts -/

/-- Where the blanks of a text stand: before an item, a field or a closing bracket at a level of
nesting, and after a colon. Nothing stands between the brackets of an empty list. -/
structure Layout where
  gap : Nat → List Char
  space : List Char
  gap_blank : ∀ level, ∀ c ∈ gap level, isBlank c = true
  space_blank : ∀ c ∈ space, isBlank c = true

namespace Layout

/-- No blanks. -/
def compact : Layout := ⟨fun _ ↦ [], [], by simp, by simp⟩

/-- Every item on a line of its own. -/
def pretty : Layout where
  gap := newLine
  space := [' ']
  gap_blank := by
    intro level c hc
    rw [newLine, List.mem_cons, List.mem_replicate] at hc
    rcases hc with rfl | ⟨_, rfl⟩ <;> rfl
  space_blank := by simp [isBlank]

variable (layout : Layout)

mutual

/-- The text of a value at a level of nesting. -/
def text (level : Nat) : Value → List Char
  | .null => ['n', 'u', 'l', 'l']
  | .number value => numberText value
  | .string value => stringText value
  | .array [] => ['[', ']']
  | .array (item :: items) =>
    '[' :: layout.gap (level + 1) ++ text (level + 1) item ++ moreItems level items
  | .object [] => ['{', '}']
  | .object ((name, value) :: fields) =>
    '{' :: layout.gap (level + 1) ++ stringText name ++ ':' :: layout.space ++
      text (level + 1) value ++ moreFields level fields

/-- The texts of the items after another one, up to the bracket that closes a list at a level. -/
def moreItems (level : Nat) : List Value → List Char
  | [] => layout.gap level ++ [']']
  | item :: items =>
    ',' :: layout.gap (level + 1) ++ text (level + 1) item ++ moreItems level items

/-- The texts of the fields after another one, up to the brace that closes an object at a level. -/
def moreFields (level : Nat) : List (String × Value) → List Char
  | [] => layout.gap level ++ ['}']
  | (name, value) :: fields =>
    ',' :: layout.gap (level + 1) ++ stringText name ++ ':' :: layout.space ++
      text (level + 1) value ++ moreFields level fields

end

mutual

/-- The compact text has the layout without blanks. -/
theorem text_compact (level : Nat) : ∀ value, compact.text level value = Json.compact value
  | .null => rfl
  | .number _ => rfl
  | .string _ => rfl
  | .array [] => rfl
  | .array (item :: items) => by
    have h := moreItems_compact level item items
    simp only [text, text_compact, Json.compact, List.cons_append, ← h]
    rfl
  | .object [] => rfl
  | .object ((name, value) :: fields) => by
    have h := moreFields_compact level name value fields
    simp only [text, text_compact, Json.compact, List.cons_append, ← h]
    simp [compact]

private theorem moreItems_compact (level : Nat) : ∀ item items,
    Json.compact item ++ compact.moreItems level items = compactItems (item :: items) ++ [']']
  | _, [] => rfl
  | item, next :: items => by
    have h := moreItems_compact level next items
    simp only [moreItems, text_compact, compactItems, List.cons_append, List.append_assoc, ← h]
    rfl

private theorem moreFields_compact (level : Nat) : ∀ name value fields,
    stringText name ++ ':' :: Json.compact value ++ compact.moreFields level fields =
      compactFields ((name, value) :: fields) ++ ['}']
  | _, _, [] => rfl
  | name, value, (next, other) :: fields => by
    have h := moreFields_compact level next other fields
    simp only [moreFields, text_compact, compactFields, List.cons_append, List.append_assoc, ← h]
    rfl

end

mutual

/-- The pretty text has a line for every item. -/
theorem text_pretty (level : Nat) : ∀ value, pretty.text level value = Json.pretty level value
  | .null => rfl
  | .number _ => rfl
  | .string _ => rfl
  | .array [] => rfl
  | .array (item :: items) => by
    have h := moreItems_pretty level item items
    simp only [text, text_pretty, Json.pretty, List.cons_append, List.append_assoc] at h ⊢
    rw [← h]
    rfl
  | .object [] => rfl
  | .object ((name, value) :: fields) => by
    have h := moreFields_pretty level name value fields
    simp only [text, text_pretty, Json.pretty, List.cons_append, List.append_assoc] at h ⊢
    rw [← h]
    rfl

private theorem moreItems_pretty (level : Nat) : ∀ item items,
    newLine (level + 1) ++ Json.pretty (level + 1) item ++ pretty.moreItems level items =
      prettyItems (level + 1) (item :: items) ++ newLine level ++ [']']
  | _, [] => by simp [moreItems, prettyItems, pretty]
  | item, next :: items => by
    have h := moreItems_pretty level next items
    simp only [moreItems, text_pretty, prettyItems, List.cons_append, List.append_assoc] at h ⊢
    rw [← h]
    rfl

private theorem moreFields_pretty (level : Nat) : ∀ name value fields,
    newLine (level + 1) ++ stringText name ++ ':' :: ' ' :: Json.pretty (level + 1) value ++
        pretty.moreFields level fields =
      prettyFields (level + 1) ((name, value) :: fields) ++ newLine level ++ ['}']
  | _, _, [] => by simp [moreFields, prettyFields, pretty]
  | name, value, (next, other) :: fields => by
    have h := moreFields_pretty level next other fields
    simp only [moreFields, text_pretty, prettyFields, List.cons_append, List.append_assoc] at h ⊢
    rw [← h]
    rfl

end

end Layout

end MethodPrint.Json
