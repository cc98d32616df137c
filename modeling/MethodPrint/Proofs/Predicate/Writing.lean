import MethodPrint.Predicate.Grammar
import MethodPrint.Proofs.Predicate.Flags
import MethodPrint.Proofs.Predicate.Lexing

/-!
# Fingerprints as tokens

The text of a clause is its name and the texts of its arguments. Every piece spells the tokens that
the reader of predicates expects, and so the text of a fingerprint is read as the tokens of its
clauses.
-/

namespace MethodPrint

/-! ### Arguments -/

namespace Argument

/-- The text of an argument. -/
def text : Argument → String
  | .string value => quote value
  | .number value => toString value.toInt
  | .qualified owner name => owner ++ "." ++ name
  | .null => "null"

/-- The tokens of an argument. -/
def tokens : Argument → List Token
  | .string value => [.string value]
  | .number value => [.number value]
  | .qualified owner name => [.identifier owner, .dot, .identifier name]
  | .null => [.identifier "null"]

/-- Names in arguments are identifiers, and a name that opens an argument is not `null`. -/
def Proper : Argument → Prop
  | .qualified owner name =>
    owner ≠ "null" ∧ Text.isIdentifier owner.toList = true ∧ Text.isIdentifier name.toList = true
  | _ => True

private theorem spells_identifier {name : String} (h : Text.isIdentifier name.toList = true) :
    Spells name.toList [.identifier name] :=
  spells_of_reads fun _ ↦ reads_identifier h

/-- The text of an argument spells its tokens. -/
theorem spells_text {argument : Argument} (h : argument.Proper) :
    Spells argument.text.toList argument.tokens := by
  cases argument with
  | string value => exact spells_of_reads fun rest _ ↦ reads_quote value rest
  | number value => exact spells_of_reads fun _ ↦ reads_number value
  | qualified owner name =>
    obtain ⟨_, ho, hn⟩ := h
    have hdot : Spells ('.' :: name.toList) [.dot, .identifier name] :=
      (spells_identifier hn).mark (fun _ ↦ rfl) (by decide) (by decide)
    have hs := (spells_identifier ho).append hdot fun _ _ ↦ ends_cons (by decide) _
    simpa [text, tokens] using hs
  | null => exact spells_identifier (by decide)

end Argument

/-- The tokens of arguments with commas between them. -/
def separated (arguments : List Argument) : List Token :=
  [.comma].intercalate (arguments.map Argument.tokens)

/-- Arguments with commas and blanks between them spell their tokens. -/
theorem spells_arguments {arguments : List Argument} (h : ∀ a ∈ arguments, a.Proper) :
    Spells (", ".intercalate (arguments.map Argument.text)).toList (separated arguments) := by
  rw [String.toList_intercalate, separated, List.map_map]
  induction arguments with
  | nil => exact spells_nil
  | cons argument rest ih =>
    obtain ⟨ha, h⟩ := List.forall_mem_cons.mp h
    cases rest with
    | nil => simpa using Argument.spells_text ha
    | cons next rest =>
      have hrest : Spells (',' :: ' ' :: _) (.comma :: _) :=
        ((ih h).blank (by decide)).mark (fun _ ↦ rfl) (by decide) (by decide)
      have hs := (Argument.spells_text ha).append hrest fun _ _ ↦ ends_cons (by decide) _
      simpa [List.intercalate_cons_cons] using hs

/-! ### Clauses -/

/-- A clause as it is written: a name and arguments. -/
structure WrittenClause where
  name : String
  arguments : List Argument

namespace WrittenClause

/-- The text of a clause. -/
def text (clause : WrittenClause) : String :=
  clauseText clause.name (clause.arguments.map Argument.text)

/-- The tokens of a clause. -/
def tokens (clause : WrittenClause) : List Token :=
  .identifier clause.name :: .openParen :: (separated clause.arguments ++ [.closeParen])

/-- A clause can be read back if its name is an identifier and its arguments are proper. -/
structure Proper (clause : WrittenClause) : Prop where
  name : Text.isIdentifier clause.name.toList = true
  arguments : ∀ a ∈ clause.arguments, a.Proper

/-- The text of a clause spells its tokens. -/
theorem Proper.spells {clause : WrittenClause} (h : clause.Proper) :
    Spells clause.text.toList clause.tokens := by
  have hclose : Spells [')'] [.closeParen] :=
    spells_nil.mark (fun _ ↦ rfl) (by decide) (by decide)
  have hargs : Spells ('(' :: _) (.openParen :: _) :=
    ((spells_arguments h.arguments).append hclose fun _ _ ↦ ends_cons (by decide) _).mark
      (fun _ ↦ rfl) (by decide) (by decide)
  have hname := spells_of_reads fun _ ↦ reads_identifier h.name
  have hs := hname.append hargs fun _ _ ↦ ends_cons (by decide) _
  simpa [text, tokens, clauseText] using hs

end WrittenClause

/-! ### Fingerprints -/

/-- The text of some clauses in braces, each on a line of its own. -/
def fingerprintText (clauses : List WrittenClause) : String :=
  "fingerprint \x7b\n" ++ String.join (clauses.map fun clause ↦ Clause.line clause.text) ++ "\x7d"

/-- The tokens of some clauses in braces. -/
def fingerprintTokens (clauses : List WrittenClause) : List Token :=
  .identifier "fingerprint" :: .openBrace ::
    (clauses.flatMap WrittenClause.tokens ++ [.closeBrace])

private theorem spells_lines {clauses : List WrittenClause} (h : ∀ c ∈ clauses, c.Proper) :
    Spells (String.join (clauses.map fun clause ↦ Clause.line clause.text)).toList
      (clauses.flatMap WrittenClause.tokens) := by
  induction clauses with
  | nil => exact spells_nil
  | cons clause clauses ih =>
    obtain ⟨hc, h⟩ := List.forall_mem_cons.mp h
    have hbreak : Spells ('\n' :: _) _ := (ih h).blank (by decide)
    have hline := hc.spells.append hbreak fun _ _ ↦ ends_cons (by decide) _
    have hindent : Spells (' ' :: ' ' :: ' ' :: ' ' :: _) _ :=
      (((hline.blank (by decide)).blank (by decide)).blank (by decide)).blank (by decide)
    simpa [Clause.line] using hindent

/-- The text of a fingerprint is read as its tokens. -/
theorem lexes_fingerprintText {clauses : List WrittenClause} (h : ∀ c ∈ clauses, c.Proper) :
    Lexes (fingerprintText clauses).toList (fingerprintTokens clauses) := by
  have hclose : Spells ['\x7d'] [.closeBrace] :=
    spells_nil.mark (fun _ ↦ rfl) (by decide) (by decide)
  have hlines := (spells_lines h).append hclose fun _ _ ↦ ends_cons (by decide) _
  have hopen : Spells ('\x7b' :: '\n' :: _) (.openBrace :: _) :=
    (hlines.blank (by decide)).mark (fun _ ↦ rfl) (by decide) (by decide)
  have hblank : Spells (' ' :: _) _ := hopen.blank (by decide)
  have hword : Spells "fingerprint".toList [.identifier "fingerprint"] :=
    spells_of_reads fun _ ↦ reads_identifier (by decide)
  have hs := hword.append hblank fun _ _ ↦ ends_cons (by decide) _
  have hl := hs [] [] nofun lexes_nil
  have htext (lines : String) : ("fingerprint \x7b\n" ++ lines ++ "\x7d").toList =
      "fingerprint".toList ++ ' ' :: '\x7b' :: '\n' :: (lines.toList ++ ['\x7d']) :=
    by
    rw [String.toList_append, String.toList_append]
    rfl
  unfold fingerprintText
  rw [htext]
  simpa only [fingerprintTokens, List.append_nil, List.cons_append, List.nil_append] using hl

/-! ### Rendered clauses -/

/-- An opcode name or a gap as an argument. -/
def Argument.ofOpcode : Option String → Argument
  | some name => .qualified "Opcode" name
  | none => .null

namespace FeatureKind

/-- The name of the clause for features of a kind. -/
def clauseName : FeatureKind → String
  | .accessFlags => "accessFlags"
  | .returnType => "returns"
  | .parameters => "parameters"
  | .stringLiteral => "strings"
  | .invokedMethod => "invokes"
  | .literal => "literals"
  | .opcodeAt => "opcodes"

/-- Different kinds have clauses of different names. -/
theorem clauseName_inj {a b : FeatureKind} : a.clauseName = b.clauseName ↔ a = b := by
  cases a <;> cases b <;> decide

/-- Names of clauses are identifiers. -/
theorem isIdentifier_clauseName (kind : FeatureKind) :
    Text.isIdentifier kind.clauseName.toList = true := by
  cases kind <;> decide

end FeatureKind

namespace Clause

/-- The kind of the features that a clause joins. -/
def kind : Clause → FeatureKind
  | .accessFlags _ => .accessFlags
  | .returns _ => .returnType
  | .parameters _ => .parameters
  | .strings _ => .stringLiteral
  | .invokes _ => .invokedMethod
  | .literals _ => .literal
  | .opcodes _ => .opcodeAt

/-- The arguments of a clause as they are rendered. -/
def arguments : Clause → List Argument
  | .accessFlags flags => (AccessFlag.names flags).map (.qualified "AccessFlags")
  | .returns type => [.string type]
  | .parameters types => types.map .string
  | .strings values => values.map .string
  | .invokes signatures => signatures.map .string
  | .literals values => values.map .number
  | .opcodes names => (slots names).map Argument.ofOpcode

/-- A clause as it is rendered. -/
def written (clause : Clause) : WrittenClause := ⟨clause.kind.clauseName, clause.arguments⟩

/-- The flags of a clause all have names. -/
def Named : Clause → Prop
  | .accessFlags flags => AccessFlag.unnamed flags = 0
  | _ => True

/-- A list has room for the opcodes of a clause. -/
def Fits : Clause → Prop
  | .opcodes names => lastPosition names < stringCapacity
  | _ => True

/-- The opcode names of a clause are identifiers. -/
def Identified : Clause → Prop
  | .opcodes names => ∀ entry ∈ names, Text.isIdentifier entry.2.toList = true
  | _ => True

private theorem map_text {α : Type} {f : α → Argument} {g : α → String}
    (h : ∀ a, (f a).text = g a) (values : List α) : (values.map f).map Argument.text =
      values.map g := by
  rw [List.map_map]
  exact List.map_congr_left fun a _ ↦ h a

private theorem text_of_named {clause : Clause} (h : clause.Named) (hf : clause.Fits) :
    clause.text = .ok clause.written.text := by
  have hquote (values : List String) := map_text (f := .string) (g := quote) (fun _ ↦ rfl) values
  cases clause with
  | accessFlags flags =>
    have hn : AccessFlag.unnamed flags = 0 := h
    rw [text, if_pos hn]
    have hflag := map_text (f := .qualified "AccessFlags") (g := ("AccessFlags." ++ ·))
      (fun _ ↦ rfl) (AccessFlag.names flags)
    exact congrArg (fun t ↦ Except.ok (clauseText "accessFlags" t)) hflag.symm
  | returns type => rfl
  | parameters types =>
    exact congrArg (fun t ↦ Except.ok (clauseText "parameters" t)) (hquote types).symm
  | strings values =>
    exact congrArg (fun t ↦ Except.ok (clauseText "strings" t)) (hquote values).symm
  | invokes signatures =>
    exact congrArg (fun t ↦ Except.ok (clauseText "invokes" t)) (hquote signatures).symm
  | literals values =>
    have hnumber := map_text (f := .number) (g := fun value ↦ toString value.toInt)
      (fun _ ↦ rfl) values
    exact congrArg (fun t ↦ Except.ok (clauseText "literals" t)) hnumber.symm
  | opcodes names =>
    have hopcode (slot : Option String) : (Argument.ofOpcode slot).text = opcodeText slot := by
      cases slot <;> rfl
    have hl : lastPosition names < stringCapacity := hf
    simp only [text, opcodePattern?, if_pos hl]
    exact congrArg (fun t ↦ Except.ok (clauseText "opcodes" t))
      (map_text hopcode (slots names)).symm

/-- Flags without a name are the fault of a clause. -/
theorem text_eq_fault_iff {clause : Clause} {fault : RenderFault} :
    clause.text = .error (.fault fault) ↔
      ∃ flags, clause = .accessFlags flags ∧ AccessFlag.unnamed flags ≠ 0 ∧
        fault = .unnamedFlags (AccessFlag.unnamed flags) := by
  cases clause with
  | accessFlags flags =>
    by_cases hn : AccessFlag.unnamed flags = 0
    · simp [text, hn]
    · simp [text, hn, eq_comm (a := fault)]
  | opcodes names =>
    by_cases hl : lastPosition names < stringCapacity <;> simp [text, opcodePattern?, hl]
  | _ => simp [text]

/-- Only opcodes that no list has room for make rendering crash. -/
theorem text_eq_crashed_iff {clause : Clause} : clause.text = .error .crashed ↔ ¬clause.Fits := by
  cases clause with
  | accessFlags flags => by_cases hn : AccessFlag.unnamed flags = 0 <;> simp [text, hn, Fits]
  | opcodes names =>
    by_cases hl : lastPosition names < stringCapacity <;> simp [text, opcodePattern?, hl, Fits]
  | _ => simp [text, Fits]

/-- A clause is rendered as it is written. -/
theorem text_eq_ok_iff {clause : Clause} {text : String} :
    clause.text = .ok text ↔ clause.Named ∧ clause.Fits ∧ clause.written.text = text := by
  constructor
  · intro h
    have hf : clause.Fits := by
      by_contra hf
      rw [text_eq_crashed_iff.mpr hf] at h
      cases h
    have hn : clause.Named := by
      cases clause with
      | accessFlags flags =>
        by_contra hn
        rw [text_eq_fault_iff.mpr ⟨flags, rfl, hn, rfl⟩] at h
        cases h
      | _ => trivial
    rw [text_of_named hn hf] at h
    exact ⟨hn, hf, Except.ok.inj h⟩
  · rintro ⟨hn, hf, rfl⟩
    exact text_of_named hn hf

private theorem mem_slots {names : List (Nat × String)} {name : String}
    (h : some name ∈ slots names) : ∃ entry ∈ names, entry.2 = name := by
  obtain ⟨index, _, hl⟩ := List.mem_map.mp h
  obtain ⟨before, after, rfl, _⟩ := List.lookup_eq_some_iff.mp hl
  exact ⟨(index, name), by simp, rfl⟩

private theorem proper_of_mem_map {α : Type} {f : α → Argument} (hf : ∀ a, (f a).Proper)
    {values : List α} : ∀ argument ∈ values.map f, argument.Proper := by
  intro argument ha
  obtain ⟨value, _, rfl⟩ := List.mem_map.mp ha
  exact hf value

/-- A clause whose opcode names are identifiers can be read back. -/
theorem proper_written {clause : Clause} (h : clause.Identified) : clause.written.Proper where
  name := clause.kind.isIdentifier_clauseName
  arguments := by
    cases clause with
    | accessFlags flags =>
      have hi : ∀ flag ∈ AccessFlag.table, Text.isIdentifier flag.name.toList = true := by decide
      intro argument ha
      obtain ⟨name, hn, rfl⟩ := List.mem_map.mp ha
      obtain ⟨flag, hf, rfl⟩ := List.mem_map.mp hn
      exact ⟨by decide, by decide, hi flag (List.mem_filter.mp hf).1⟩
    | returns type => exact List.forall_mem_singleton.mpr trivial
    | parameters types => exact proper_of_mem_map (f := .string) fun _ ↦ trivial
    | strings values => exact proper_of_mem_map (f := .string) fun _ ↦ trivial
    | invokes signatures => exact proper_of_mem_map (f := .string) fun _ ↦ trivial
    | literals values => exact proper_of_mem_map (f := .number) fun _ ↦ trivial
    | opcodes names =>
      intro argument ha
      obtain ⟨slot, hs, rfl⟩ := List.mem_map.mp ha
      cases slot with
      | none => trivial
      | some name =>
        obtain ⟨entry, he, rfl⟩ := mem_slots hs
        exact ⟨by decide, by decide, h entry he⟩

end Clause

end MethodPrint
