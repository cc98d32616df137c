/-!
# Method identifiers

A method is identified by its defining class and its short identifier, joined by an arrow:
`Lcom/example/Foo;->bar(I)V`. The class part may be missing.

`SPEC_FULL.md` 3; record `MethodId`, operations `defining_class` and `short_id`.
-/

namespace MethodPrint

/-- The identifier of a method, unique within a corpus. -/
structure MethodId where
  text : String
  deriving DecidableEq, Hashable, Inhabited

namespace MethodId

/-- The characters before and after the first arrow. -/
def splitArrow : List Char → Option (List Char × List Char)
  | [] => none
  | '-' :: '>' :: rest => some ([], rest)
  | c :: rest => (splitArrow rest).map fun (before, after) ↦ (c :: before, after)

/-- The defining class, if the identifier has an arrow. -/
def definingClass? (id : MethodId) : Option String :=
  (splitArrow id.text.toList).map fun (before, _) ↦ String.ofList before

/-- What follows the arrow, or the whole identifier without one. -/
def shortId (id : MethodId) : String :=
  match splitArrow id.text.toList with
  | some (_, after) => String.ofList after
  | none => id.text

/-- Splitting loses nothing but the arrow. -/
theorem eq_of_splitArrow {text before after : List Char}
    (h : splitArrow text = some (before, after)) : text = before ++ '-' :: '>' :: after := by
  fun_induction splitArrow text generalizing before with
  | case1 => cases h
  | case2 rest => cases h; rfl
  | case3 c rest _ ih =>
    obtain ⟨⟨b, a⟩, hb, he⟩ := Option.map_eq_some_iff.mp h
    cases he
    rw [ih hb, List.cons_append]

end MethodId

end MethodPrint
