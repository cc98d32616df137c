import MethodPrint.Proofs.Json.Record
import MethodPrint.Stored.Read
import MethodPrint.Stored.Write

/-!
# Stored corpora are recovered

Instructions, methods, fields, classes, members and corpora are recovered from their stored forms in
any restatement. A member is recovered wherever its kind stands, since its other fields are plain
enough to be kept until the kind is known.
-/

namespace MethodPrint

open Json

/-! ### Instructions and declarations -/

variable {fields others : List (String × Value)}

private theorem mem_storedOption {α : Type} {name other : String} {stored : α → Value}
    {option : Option α} {value : Value} :
    (other, value) ∈ storedOption name stored option ↔
      other = name ∧ ∃ result, option = some result ∧ value = stored result := by
  cases option <;> simp [storedOption]

private theorem gives_option {α : Type} (name : String) {read : Read α} {stored : α → Value}
    (option : Option α) (h : Restated fields others)
    (hs : ∀ value, (name, value) ∈ fields ↔ (name, value) ∈ storedOption name stored option)
    (hd : ∀ result, (name, stored result) ∉ omittable)
    (hr : ∀ result, Recovers (readOptional read) (stored result) (some result)) :
    Shape.Gives others name (readOptional read) (some none) option := by
  cases option with
  | none =>
    refine h.gives_default fun hm ↦ ?_
    obtain ⟨⟨_, value⟩, hf, rfl⟩ := List.mem_map.mp hm
    cases (hs value).mp hf
  | some result =>
    exact h.gives ((hs _).mpr List.mem_cons_self) (hr result) fun ho ↦ absurd ho (hd result)

/-- An identifier is recovered. -/
theorem MethodId.recovers (id : MethodId) : Recovers MethodId.read id.stored id :=
  (recovers_string id.text).map MethodId.mk

private theorem recovers_optional_text (text : String) :
    Recovers (readOptional readText?) (.string text) (some text) :=
  recovers_optional (recovers_string text) (by rintro ⟨⟩)

private theorem recovers_optional_int64 (value : Int64) :
    Recovers (readOptional readInt64) (.number value.toInt) (some value) :=
  recovers_optional (recovers_int64 value) (by rintro ⟨⟩)

private theorem eq_zero_of_omittable (word : UInt32)
    (h : ("access_flags", storedNat word.toNat) ∈ omittable) : 0 = word := by
  have hw : word.toNat = 0 := by simpa [storedNat, omittable] using h
  exact (UInt32.toNat_inj.mp (hw.trans UInt32.toNat_zero.symm)).symm

/-- An instruction is recovered, whichever operands it has. -/
theorem Instruction.recovers (instruction : Instruction) :
    Recovers Instruction.shape.read instruction.stored instruction := by
  obtain ⟨opcode, string, method, literal⟩ := instruction
  apply Shape.recovers
  · cases string <;> cases method <;> cases literal <;> simp [storedOption]
  · intro others h
    have hstring := gives_option "string" string h
      (by simp [mem_storedOption]) (by simp [omittable]) recovers_optional_text
    have hmethod := gives_option "method" method h
      (by simp [mem_storedOption]) (by simp [omittable]) recovers_optional_text
    have hliteral := gives_option "literal" literal h
      (by simp [mem_storedOption]) (by simp [omittable]) recovers_optional_int64
    rw [Instruction.shape, Shape.readEntries_map,
      h.readEntries_field (by simp) (recovers_string opcode) <|
      Shape.readEntries_field h.nodup (by simp) hstring <|
      Shape.readEntries_field h.nodup (by simp) hmethod <|
      Shape.readEntries_field h.nodup (by simp) hliteral <|
      Shape.readEntries_done others]
    rfl

private theorem Method.recovers_body (method : Method) :
    Recovers readBody (storedList Instruction.stored method.instructions)
      ⟨method.instructions, method.fits⟩ := by
  intro other hr
  have hl := recovers_list (fun instruction _ ↦ instruction.recovers) other hr
  rw [readBody, hl]
  exact dif_pos method.fits

/-- A method is recovered, whatever other fields stand among its own. -/
theorem Method.readEntries_of_restated {method : Method} (h : Restated fields others)
    (hs : method.storedFields ⊆ fields) :
    Method.shape.readEntries (fieldsTree others) = .ok method := by
  simp only [Method.storedFields, List.cons_subset, List.nil_subset, and_true] at hs
  obtain ⟨hid, hflags, htype, hparameters, hinstructions⟩ := hs
  rw [Method.shape, Shape.readEntries_map,
    h.readEntries_field hid method.id.recovers <|
    h.readEntries_default hflags (recovers_word32 _) (eq_zero_of_omittable _) <|
    h.readEntries_field htype (recovers_string _) <|
    h.readEntries_default hparameters (recovers_list fun text _ ↦ recovers_string text)
      (by simp [storedList, omittable]) <|
    h.readEntries_default hinstructions method.recovers_body
      (by simp [storedList, omittable, eq_comm]) <|
    Shape.readEntries_done others]
  rfl

/-- A field is recovered, whatever other fields stand among its own. -/
theorem Field.readEntries_of_restated {field : Field} (h : Restated fields others)
    (hs : field.storedFields ⊆ fields) :
    Field.shape.readEntries (fieldsTree others) = .ok field := by
  simp only [Field.storedFields, List.cons_subset, List.nil_subset, and_true] at hs
  obtain ⟨hid, hflags, htype⟩ := hs
  rw [Field.shape, Shape.readEntries_map,
    h.readEntries_field hid (recovers_string _) <|
    h.readEntries_default hflags (recovers_word32 _) (eq_zero_of_omittable _) <|
    h.readEntries_field htype (recovers_string _) <|
    Shape.readEntries_done others]
  rfl

/-- A class is recovered, whatever other fields stand among its own. -/
theorem ClassDecl.readEntries_of_restated {decl : ClassDecl} (h : Restated fields others)
    (hs : decl.storedFields ⊆ fields) :
    ClassDecl.shape.readEntries (fieldsTree others) = .ok decl := by
  simp only [ClassDecl.storedFields, List.cons_subset, List.nil_subset, and_true] at hs
  obtain ⟨hid, hflags⟩ := hs
  rw [ClassDecl.shape, Shape.readEntries_map,
    h.readEntries_field hid (recovers_string _) <|
    h.readEntries_default hflags (recovers_word32 _) (eq_zero_of_omittable _) <|
    Shape.readEntries_done others]
  rfl

/-- A method is recovered. -/
theorem Method.recovers (method : Method) :
    Recovers Method.shape.read method.stored method :=
  Shape.recovers (by simp [Method.storedFields]) fun _ h ↦
    Method.readEntries_of_restated h (List.Subset.refl _)

/-! ### Members -/

/-- A number of 64 bits can be kept. -/
theorem plain_storedNat (depth : Nat) {n : Nat} (h : n < UInt64.size) :
    (storedNat n).Plain depth := by
  have hmin : Int64.minValue.toInt ≤ 0 := by decide
  exact .number depth (by omega) (by omega)

/-- A word of 32 bits can be kept. -/
theorem plain_word32 (depth : Nat) (word : UInt32) : (storedNat word.toNat).Plain depth :=
  plain_storedNat depth (Nat.lt_trans word.toNat_lt (by decide))

/-- A signed number of 64 bits can be kept. -/
theorem plain_int64 (depth : Nat) (value : Int64) : (Value.number value.toInt).Plain depth := by
  have h := value.toInt_le
  have : Int64.maxValue.toInt < UInt64.size := by decide
  exact .number depth value.minValue_le_toInt (by omega)

/-- A list can be kept if its items can. -/
theorem plain_storedList {α : Type} {stored : α → Value} {values : List α} {depth : Nat}
    (h : ∀ value, (stored value).Plain depth) : (storedList stored values).Plain (depth + 1) := by
  refine .array fun item hi ↦ ?_
  obtain ⟨value, _, rfl⟩ := List.mem_map.mp hi
  exact h value

private theorem Instruction.plain_stored (instruction : Instruction) :
    instruction.stored.Plain 1 := by
  refine .object fun name value hm ↦ ?_
  simp only [List.mem_append, List.mem_cons, Prod.mk.injEq, mem_storedOption] at hm
  rcases hm with (((⟨_, rfl⟩ | ⟨_, _, _, rfl⟩) | ⟨_, _, _, rfl⟩) | ⟨_, _, _, rfl⟩)
  · exact .string 0 _
  · exact .string 0 _
  · exact .string 0 _
  · exact plain_int64 0 _

private theorem Member.plain_storedFields {member : Member} {name : String} {value : Value}
    (h : (name, value) ∈ member.storedFields) : value.Plain 2 := by
  cases member with
  | method decl =>
    simp only [Member.storedFields, Method.storedFields, List.mem_cons, Prod.mk.injEq,
      List.not_mem_nil, or_false] at h
    rcases h with ⟨_, rfl⟩ | ⟨_, rfl⟩ | ⟨_, rfl⟩ | ⟨_, rfl⟩ | ⟨_, rfl⟩
    · exact .string 2 _
    · exact plain_word32 2 _
    · exact .string 2 _
    · exact plain_storedList fun text ↦ .string 1 text
    · exact plain_storedList Instruction.plain_stored
  | field decl =>
    simp only [Member.storedFields, Field.storedFields, List.mem_cons, Prod.mk.injEq,
      List.not_mem_nil, or_false] at h
    rcases h with ⟨_, rfl⟩ | ⟨_, rfl⟩ | ⟨_, rfl⟩
    · exact .string 2 _
    · exact plain_word32 2 _
    · exact .string 2 _
  | classDecl decl =>
    simp only [Member.storedFields, ClassDecl.storedFields, List.mem_cons, Prod.mk.injEq,
      List.not_mem_nil, or_false] at h
    rcases h with ⟨_, rfl⟩ | ⟨_, rfl⟩
    · exact .string 2 _
    · exact plain_word32 2 _

/-- A kind is found under its own name. -/
theorem MemberKind.ofName?_name (kind : MemberKind) : ofName? kind.name = some kind := by
  cases kind <;> decide

private theorem readMemberKind_some {depth : Nat} {kind : MemberKind}
    (hk : "kind" ∉ fields.map Prod.fst)
    (hp : ∀ name value, (name, value) ∈ fields → value.tree.keepFault? depth = none) :
    readMemberKind depth (some kind) (fieldsTree fields) = .ok kind := by
  induction fields with
  | nil => rfl
  | cons field fields ih =>
    rw [List.map_cons, List.mem_cons, not_or] at hk
    rw [fieldsTree, readMemberKind, if_neg (Ne.symm hk.1), hp _ _ List.mem_cons_self]
    exact ih hk.2 fun name value hm ↦ hp name value (List.mem_cons_of_mem _ hm)

private theorem readMemberKind_none {depth : Nat} {kind : MemberKind}
    (hn : (fields.map Prod.fst).Nodup) (hm : ("kind", .string kind.name) ∈ fields)
    (hp : ∀ name value, (name, value) ∈ fields → value.tree.keepFault? depth = none) :
    readMemberKind depth none (fieldsTree fields) = .ok kind := by
  induction fields with
  | nil => cases hm
  | cons field fields ih =>
    obtain ⟨hf, hn⟩ := List.nodup_cons.mp hn
    have hrest := fun name value hm ↦ hp name value (List.mem_cons_of_mem field hm)
    rcases List.mem_cons.mp hm with rfl | hm
    · have hread : MemberKind.read (Value.string kind.name).tree = .ok kind :=
        recovers_name kind.ofName?_name _ (.string _)
      rw [fieldsTree, readMemberKind, if_pos rfl, hread]
      exact readMemberKind_some hf hrest
    · have hne : field.1 ≠ "kind" := fun he ↦ hf (he ▸ List.mem_map_of_mem (f := Prod.fst) hm)
      rw [fieldsTree, readMemberKind, if_neg hne, hp _ _ List.mem_cons_self]
      exact ih hn hm hrest

private theorem MemberKind.readMember_of_restated {member : Member} (h : Restated fields others)
    (hs : member.storedFields ⊆ fields) :
    member.kind.readMember (.object (fieldsTree others)) = .ok member := by
  cases member with
  | method decl =>
    have hr : Method.shape.read (.object (fieldsTree others)) = .ok decl :=
      Method.readEntries_of_restated h hs
    simp only [Member.kind, MemberKind.readMember, Read.ofKept, hr]
    rfl
  | field decl =>
    have hr : Field.shape.read (.object (fieldsTree others)) = .ok decl :=
      Field.readEntries_of_restated h hs
    simp only [Member.kind, MemberKind.readMember, Read.ofKept, hr]
    rfl
  | classDecl decl =>
    have hr : ClassDecl.shape.read (.object (fieldsTree others)) = .ok decl :=
      ClassDecl.readEntries_of_restated h hs
    simp only [Member.kind, MemberKind.readMember, Read.ofKept, hr]
    rfl

/-- A member is recovered, unless it is nested too deep for its fields to be kept. -/
theorem Member.recovers (member : Member) {depth : Nat} (hd : depth + 3 < nestingLimit) :
    Recovers (Member.readWithin depth) member.stored member := by
  apply recovers_object
  · cases member <;>
      simp [Member.storedFields, Method.storedFields, Field.storedFields, ClassDecl.storedFields]
  · intro others h
    obtain ⟨other, ho, hm⟩ | ⟨_, ho⟩ := h.mem_or_omitted (List.mem_cons_self)
    · cases ho
      have hp : ∀ name value, (name, value) ∈ others →
          value.tree.keepFault? (depth + 1) = none := by
        intro name value hm
        obtain ⟨original, hv, hr⟩ := h.exists_of_mem hm
        have hplain : original.Plain 2 := by
          rcases List.mem_cons.mp hv with he | hv
          · cases he
            exact .string 2 _
          · exact Member.plain_storedFields hv
        exact (hplain.of_restates hr).keepFault?_tree _ (by omega)
      rw [Member.readWithin, readMemberKind_none h.nodup hm hp]
      exact MemberKind.readMember_of_restated h (List.subset_cons_self _ _)
    · simp [omittable] at ho

/-- A corpus is recovered. -/
theorem Corpus.recovers (corpus : Corpus) : Recovers Corpus.shape.read corpus.stored corpus := by
  refine Shape.recovers (by simp) fun others h ↦ ?_
  rw [Corpus.shape, Shape.readEntries_map,
    h.readEntries_field (by simp) (recovers_string corpus.id) <|
    h.readEntries_field (by simp [storedList])
      (recovers_list fun member (_ : member ∈ corpus.members) ↦ member.recovers (by decide)) <|
    Shape.readEntries_done others]
  rfl

end MethodPrint
