import Mathlib.Data.List.Forall2
import Mathlib.Data.List.Perm.Basic
import MethodPrint.Proofs.Json.Reading

/-!
# Restating a value

A stored value may be stated in another way: the fields of an object in any order, and without
fields that hold their default. What has been restated is as plain as what was stated, and offers
the same fields.
-/

namespace MethodPrint.Json

/-! ### Restatements -/

/-- The fields that may be left out: each with the value that a missing field stands for. -/
def omittable : List (String × Value) :=
  [("access_flags", .number 0), ("parameters", .array []), ("instructions", .array [])]

/-- Fields whose values are related one by one, some fields with their default left out. -/
inductive Thinned (r : Value → Value → Prop) :
    List (String × Value) → List (String × Value) → Prop where
  | nil : Thinned r [] []
  | keep {name : String} {value other : Value} {fields others : List (String × Value)}
      (hv : r value other) (hf : Thinned r fields others) :
      Thinned r ((name, value) :: fields) ((name, other) :: others)
  | skip {field : String × Value} {fields others : List (String × Value)}
      (hv : field ∈ omittable) (hf : Thinned r fields others) : Thinned r (field :: fields) others

namespace Value

/-- A value stated in another way: with the fields of each of its objects in another order, and some
that hold their default left out. -/
inductive Restates : Value → Value → Prop where
  | null : Restates .null .null
  | number (value : Int) : Restates (.number value) (.number value)
  | string (value : String) : Restates (.string value) (.string value)
  | array {items others : List Value} (hi : List.Forall₂ Restates items others) :
      Restates (.array items) (.array others)
  | object {fields thinned others : List (String × Value)} (ht : Thinned Restates fields thinned)
      (hp : thinned.Perm others) : Restates (.object fields) (.object others)

mutual

/-- Every value states itself. -/
theorem Restates.refl : ∀ value : Value, value.Restates value
  | .null => .null
  | .number value => .number value
  | .string value => .string value
  | .array items => .array (forall₂_restates items)
  | .object fields => .object (thinned_restates fields) (.refl fields)

private theorem forall₂_restates : ∀ items : List Value, List.Forall₂ Restates items items
  | [] => .nil
  | item :: items => .cons (Restates.refl item) (forall₂_restates items)

private theorem thinned_restates : ∀ fields : List (String × Value),
    Thinned Restates fields fields
  | [] => .nil
  | (_, value) :: fields => .keep (Restates.refl value) (thinned_restates fields)

end

end Value

namespace Thinned

variable {r : Value → Value → Prop} {fields others : List (String × Value)}

/-- Thinning leaves no new name. -/
theorem sublist (h : Thinned r fields others) :
    (others.map Prod.fst).Sublist (fields.map Prod.fst) := by
  induction h with
  | nil => exact .slnil
  | keep _ _ ih => exact ih.cons_cons _
  | skip _ _ ih => exact ih.cons _

/-- What is left comes from a field with the same name. -/
theorem exists_of_mem (h : Thinned r fields others) {name : String} {other : Value}
    (hm : (name, other) ∈ others) : ∃ value, (name, value) ∈ fields ∧ r value other := by
  induction h with
  | nil => cases hm
  | keep hv _ ih =>
    rcases List.mem_cons.mp hm with he | hm
    · cases he
      exact ⟨_, List.mem_cons_self, hv⟩
    · obtain ⟨value, hf, hr⟩ := ih hm
      exact ⟨value, List.mem_cons_of_mem _ hf, hr⟩
  | skip _ _ ih =>
    obtain ⟨value, hf, hr⟩ := ih hm
    exact ⟨value, List.mem_cons_of_mem _ hf, hr⟩

/-- A field is left with a related value, or its name is gone and it held its default. -/
theorem mem_or_omitted (h : Thinned r fields others) (hn : (fields.map Prod.fst).Nodup)
    {name : String} {value : Value} (hm : (name, value) ∈ fields) :
    (∃ other, r value other ∧ (name, other) ∈ others) ∨
      (name ∉ others.map Prod.fst ∧ (name, value) ∈ omittable) := by
  induction h with
  | nil => cases hm
  | @keep first _ other _ _ hv hf ih =>
    obtain ⟨hfirst, hn⟩ := List.nodup_cons.mp hn
    rcases List.mem_cons.mp hm with he | hm
    · cases he
      exact .inl ⟨other, hv, List.mem_cons_self⟩
    · rcases ih hn hm with ⟨other, hr, ho⟩ | ⟨ho, hd⟩
      · exact .inl ⟨other, hr, List.mem_cons_of_mem _ ho⟩
      · refine .inr ⟨?_, hd⟩
        rw [List.map_cons, List.mem_cons, not_or]
        refine ⟨fun he ↦ hfirst ?_, ho⟩
        rw [← he]
        exact List.mem_map_of_mem (f := Prod.fst) hm
  | @skip field _ _ hd hf ih =>
    obtain ⟨hfirst, hn⟩ := List.nodup_cons.mp hn
    rcases List.mem_cons.mp hm with he | hm
    · cases he
      exact .inr ⟨fun ho ↦ hfirst (hf.sublist.mem ho), hd⟩
    · exact ih hn hm

end Thinned

/-- What the fields of a restated object are to those of the object. -/
structure Restated (fields others : List (String × Value)) : Prop where
  /-- No name stands twice. -/
  nodup : (others.map Prod.fst).Nodup
  /-- Nothing has been added. -/
  exists_of_mem {name : String} {other : Value} : (name, other) ∈ others →
    ∃ value, (name, value) ∈ fields ∧ value.Restates other
  /-- Nothing but defaults has been left out. -/
  mem_or_omitted {name : String} {value : Value} : (name, value) ∈ fields →
    (∃ other, value.Restates other ∧ (name, other) ∈ others) ∨
      (name ∉ others.map Prod.fst ∧ (name, value) ∈ omittable)

/-- A restated object offers the fields of the object. -/
theorem Value.Restates.exists_restated {fields : List (String × Value)} {value : Value}
    (h : (Value.object fields).Restates value) (hn : (fields.map Prod.fst).Nodup) :
    ∃ others, value = .object others ∧ Restated fields others := by
  cases h with
  | @object _ thinned others ht hp =>
    refine ⟨others, rfl, ?_, ?_, ?_⟩
    · exact (hp.map Prod.fst).nodup (ht.sublist.nodup hn)
    · exact fun hm ↦ ht.exists_of_mem (hp.mem_iff.mpr hm)
    · intro name value hm
      rcases ht.mem_or_omitted hn hm with ⟨other, hr, ho⟩ | ⟨ho, hd⟩
      · exact .inl ⟨other, hr, hp.mem_iff.mp ho⟩
      · exact .inr ⟨fun hm ↦ ho ((hp.map Prod.fst).mem_iff.mpr hm), hd⟩

/-! ### Plain values -/

namespace Value

/-- A value that readers can keep: nested no deeper than a bound, and with numbers of 64 bits
only. -/
inductive Plain : Nat → Value → Prop where
  | null (depth : Nat) : Plain depth .null
  | number (depth : Nat) {value : Int} (hl : Int64.minValue.toInt ≤ value)
      (hu : value < UInt64.size) : Plain depth (.number value)
  | string (depth : Nat) (value : String) : Plain depth (.string value)
  | array {depth : Nat} {items : List Value} (h : ∀ item ∈ items, Plain depth item) :
      Plain (depth + 1) (.array items)
  | object {depth : Nat} {fields : List (String × Value)}
      (h : ∀ name value, (name, value) ∈ fields → Plain depth value) :
      Plain (depth + 1) (.object fields)

private theorem exists_of_forall₂ {items others : List Value}
    (h : List.Forall₂ Restates items others) {other : Value} (hm : other ∈ others) :
    ∃ item ∈ items, item.Restates other := by
  induction h with
  | nil => cases hm
  | cons hr _ ih =>
    rcases List.mem_cons.mp hm with rfl | hm
    · exact ⟨_, List.mem_cons_self, hr⟩
    · obtain ⟨item, hi, hr⟩ := ih hm
      exact ⟨item, List.mem_cons_of_mem _ hi, hr⟩

/-- What has been restated is as plain as before. -/
theorem Plain.of_restates {depth : Nat} {value other : Value} (h : value.Plain depth)
    (hr : value.Restates other) : other.Plain depth := by
  induction h generalizing other with
  | null depth => cases hr; exact .null depth
  | number depth hl hu => cases hr; exact .number depth hl hu
  | string depth value => cases hr; exact .string depth value
  | array _ ih =>
    cases hr with
    | array hi =>
      refine .array fun other ho ↦ ?_
      obtain ⟨item, hm, hr⟩ := exists_of_forall₂ hi ho
      exact ih item hm hr
  | object _ ih =>
    cases hr with
    | object ht hp =>
      refine .object fun name other ho ↦ ?_
      obtain ⟨value, hm, hr⟩ := ht.exists_of_mem (hp.mem_iff.mpr ho)
      exact ih name value hm hr

private theorem integerTree_cases (value : Int) :
    (∃ n, integerTree value = .integer n) ∨ integerTree value = .huge ∨
      integerTree value = .real := by
  simp only [integerTree, numberTree]
  split
  · exact .inl ⟨_, rfl⟩
  · split
    · exact .inl ⟨_, rfl⟩
    · split
      · exact .inr (.inl rfl)
      · exact .inr (.inr rfl)

mutual

/-- A reader that passes over a value meets no fault in it. -/
theorem passFault?_tree : ∀ value : Value, value.tree.passFault? = none
  | .null => rfl
  | .number value => by
    rw [tree]
    obtain ⟨n, h⟩ | h | h := integerTree_cases value <;> rw [h] <;> rfl
  | .string _ => rfl
  | .array items => passFault?_itemsTree items
  | .object fields => passFault?_fieldsTree fields

private theorem passFault?_itemsTree : ∀ items, (itemsTree items).passFault? = none
  | [] => rfl
  | item :: items => by
    rw [itemsTree, Items.passFault?, passFault?_tree item, passFault?_itemsTree items]
    rfl

private theorem passFault?_fieldsTree : ∀ fields, (fieldsTree fields).passFault? = none
  | [] => rfl
  | (_, value) :: fields => by
    rw [fieldsTree, Entries.passFault?, passFault?_tree value, passFault?_fieldsTree fields]
    rfl

end

private theorem keepFault?_itemsTree {within : Nat} {items : List Value}
    (h : ∀ item ∈ items, item.tree.keepFault? within = none) :
    (itemsTree items).keepFault? within = none := by
  induction items with
  | nil => rfl
  | cons item items ih =>
    obtain ⟨hi, h⟩ := List.forall_mem_cons.mp h
    rw [itemsTree, Items.keepFault?, hi, ih h]
    rfl

private theorem keepFault?_fieldsTree {within : Nat} {fields : List (String × Value)}
    (h : ∀ name value, (name, value) ∈ fields → value.tree.keepFault? within = none) :
    (fieldsTree fields).keepFault? within = none := by
  induction fields with
  | nil => rfl
  | cons field fields ih =>
    rw [fieldsTree, Entries.keepFault?, h _ _ List.mem_cons_self,
      ih fun name value hm ↦ h name value (List.mem_cons_of_mem _ hm)]
    rfl

/-- A reader that keeps a plain value meets no fault in it, unless it is nested too deep already. -/
theorem Plain.keepFault?_tree {depth : Nat} {value : Value} (h : value.Plain depth) (within : Nat)
    (hd : within + depth < nestingLimit) : value.tree.keepFault? within = none := by
  induction h generalizing within with
  | null depth => rfl
  | number depth hl hu => rw [tree, integerTree_of_bounds hl hu]; rfl
  | string depth value => rfl
  | array _ ih =>
    rw [tree, Tree.keepFault?, if_pos (by omega)]
    exact keepFault?_itemsTree fun item hm ↦ ih item hm _ (by omega)
  | object _ ih =>
    rw [tree, Tree.keepFault?, if_pos (by omega)]
    exact keepFault?_fieldsTree fun name value hm ↦ ih name value hm _ (by omega)

end Value

end MethodPrint.Json
