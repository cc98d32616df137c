import MethodPrint.Proofs.Predicate.Writing
import MethodPrint.Proofs.Traversal

/-!
# The grammar of source texts

A source text is the word `fingerprint` and clauses in braces, each with a name of its own. What a
clause demands says which arguments it has; a comma may follow the last of them. The reader
succeeds on exactly the tokens of such texts, and reads what their clauses demand.
-/

namespace MethodPrint

/-! ### What the grammar says -/

/-- What a clause demands. The flags that it names are those of the table. -/
inductive Demand where
  | accessFlags (flags : List AccessFlag) (known : ∀ flag ∈ flags, flag ∈ AccessFlag.table)
  | returns (type : String)
  | parameters (types : List String)
  | strings (values : List String)
  | invokes (signatures : List String)
  | literals (values : List Int64)
  /-- Opcode names from the first instruction on, with gaps. -/
  | opcodes (pattern : List (Option String))

namespace Demand

/-- The kind of the features that a demand is about. -/
def kind : Demand → FeatureKind
  | .accessFlags _ _ => .accessFlags
  | .returns _ => .returnType
  | .parameters _ => .parameters
  | .strings _ => .stringLiteral
  | .invokes _ => .invokedMethod
  | .literals _ => .literal
  | .opcodes _ => .opcodeAt

/-- The name of the clause that makes a demand. -/
def name (demand : Demand) : String := demand.kind.clauseName

/-- The arguments of the clause that makes a demand. -/
def arguments : Demand → List Argument
  | .accessFlags flags _ => flags.map fun flag ↦ .qualified "AccessFlags" flag.name
  | .returns type => [.string type]
  | .parameters types => types.map .string
  | .strings values => values.map .string
  | .invokes signatures => signatures.map .string
  | .literals values => values.map .number
  | .opcodes pattern => pattern.map Argument.ofOpcode

/-- A predicate with one more demand. -/
def addTo (predicate : Predicate) : Demand → Predicate
  | .accessFlags flags _ =>
    { predicate with accessFlags := some (flags.foldl (fun word flag ↦ word ||| flag.bit) 0) }
  | .returns type => { predicate with returnType := some type }
  | .parameters types => { predicate with parameters := some types }
  | .strings values => { predicate with strings := values }
  | .invokes signatures => { predicate with invokes := signatures }
  | .literals values => { predicate with literals := values }
  | .opcodes pattern => { predicate with opcodes := pattern }

end Demand

/-- The tokens of arguments, with or without a comma after the last one. -/
def argumentTokens (arguments : List Argument) (comma : Bool) : List Token :=
  separated arguments ++ if comma then [.comma] else []

/-- A clause of a source text. A comma may follow its last argument. -/
structure SourceClause where
  demand : Demand
  comma : Bool := false
  arguments_ne_nil : comma = true → demand.arguments ≠ [] := by decide

namespace SourceClause

/-- The name of a clause. -/
def name (clause : SourceClause) : String := clause.demand.name

/-- The tokens of a clause. -/
def tokens (clause : SourceClause) : List Token :=
  .identifier clause.name :: .openParen ::
    (argumentTokens clause.demand.arguments clause.comma ++ [.closeParen])

end SourceClause

/-- The tokens of a source text with some clauses. -/
def sourceTokens (clauses : List SourceClause) : List Token :=
  .identifier "fingerprint" :: .openBrace ::
    (clauses.flatMap SourceClause.tokens ++ [.closeBrace])

/-! ### Arguments -/

/-- A name that opens an argument is not `null`. -/
def Argument.Readable : Argument → Prop
  | .qualified owner _ => owner ≠ "null"
  | _ => True

/-- Placed tokens start with the placed tokens of what their tokens start with. -/
theorem exists_placed {tokens : List PlacedToken} {token : Token} {more : List Token}
    (h : tokens.map (·.token) = token :: more) :
    ∃ place rest, tokens = ⟨token, place⟩ :: rest ∧ rest.map (·.token) = more := by
  obtain ⟨⟨_, place⟩, rest, rfl, rfl, hm⟩ := List.map_eq_cons_iff.mp h
  exact ⟨place, rest, rfl, hm⟩

/-- The tokens of an argument are read as this argument. -/
theorem readArgument_of_tokens (stop : Nat) {argument : Argument} (h : argument.Readable)
    {tokens : List PlacedToken} {more : List Token}
    (ht : tokens.map (·.token) = argument.tokens ++ more) :
    ∃ first rest left, tokens = first :: rest ∧ first.token ≠ .closeParen ∧
      readArgument stop first rest = .ok (argument, left) ∧ left.map (·.token) = more := by
  cases argument with
  | string value =>
    obtain ⟨place, rest, rfl, hm⟩ := exists_placed ht
    exact ⟨_, rest, rest, rfl, nofun, rfl, hm⟩
  | number value =>
    obtain ⟨place, rest, rfl, hm⟩ := exists_placed ht
    exact ⟨_, rest, rest, rfl, nofun, rfl, hm⟩
  | null =>
    obtain ⟨place, rest, rfl, hm⟩ := exists_placed ht
    exact ⟨_, rest, rest, rfl, nofun, rfl, hm⟩
  | qualified owner name =>
    obtain ⟨place, rest, rfl, hd⟩ := exists_placed ht
    obtain ⟨dotPlace, rest, rfl, hn⟩ := exists_placed hd
    obtain ⟨namePlace, rest, rfl, hm⟩ := exists_placed hn
    refine ⟨_, _, rest, rfl, nofun, ?_, hm⟩
    unfold readArgument
    split
    · next he => cases he
    · next he => cases he
    · next he => exact absurd (Token.identifier.inj he) h
    · next he =>
      cases he
      rfl
    · next hi => exact absurd rfl (hi owner)

/-- An argument is read from its tokens alone. -/
theorem tokens_of_readArgument {stop : Nat} {first : PlacedToken} {rest left : List PlacedToken}
    {argument : Argument} (h : readArgument stop first rest = .ok (argument, left)) :
    first.token :: rest.map (·.token) = argument.tokens ++ left.map (·.token) := by
  unfold readArgument at h
  split at h
  · next he =>
    cases h
    rw [he]
    rfl
  · next he =>
    cases h
    rw [he]
    rfl
  · next he =>
    cases h
    rw [he]
    rfl
  · next he =>
    split at h
    · cases h
      rw [he]
      rfl
    · exact (faultNext_ne_ok h).elim
    · exact (faultNext_ne_ok h).elim
  · cases h

private theorem readArguments_of_comma {stop place : Nat} {first : PlacedToken}
    {rest left left' : List PlacedToken} (hf : first.token ≠ .closeParen) {argument : Argument}
    (hr : readArgument stop first rest = .ok (argument, ⟨.comma, place⟩ :: left))
    {arguments : List PlacedArgument} (ha : readArguments stop left = .ok (arguments, left')) :
    readArguments stop (first :: rest) = .ok (⟨argument, first.place⟩ :: arguments, left') := by
  rw [readArguments, if_neg hf]
  split
  · next he => rw [hr] at he; cases he
  · next he => rw [hr] at he; cases he
  · next he =>
    rw [hr] at he
    cases he
    rw [ha]
    rfl

private theorem readArguments_of_closeParen {stop place : Nat} {first : PlacedToken}
    {rest left : List PlacedToken} (hf : first.token ≠ .closeParen) {argument : Argument}
    (hr : readArgument stop first rest = .ok (argument, ⟨.closeParen, place⟩ :: left)) :
    readArguments stop (first :: rest) = .ok ([⟨argument, first.place⟩], left) := by
  rw [readArguments, if_neg hf]
  split
  · next he => rw [hr] at he; cases he
  · next he => rw [hr] at he; cases he
  · next he =>
    rw [hr] at he
    cases he
    rfl

private theorem argumentTokens_singleton (argument : Argument) (comma : Bool) :
    argumentTokens [argument] comma = argument.tokens ++ if comma then [.comma] else [] := by
  simp [argumentTokens, separated]

private theorem argumentTokens_cons_cons (argument next : Argument) (others : List Argument)
    (comma : Bool) :
    argumentTokens (argument :: next :: others) comma =
      argument.tokens ++ .comma :: argumentTokens (next :: others) comma := by
  simp [argumentTokens, separated, List.intercalate_cons_cons]

/-- The tokens of arguments before a closing parenthesis are read as these arguments. -/
theorem readArguments_of_tokens (stop : Nat) {arguments : List Argument}
    (h : ∀ a ∈ arguments, a.Readable) {comma : Bool} (hc : comma = true → arguments ≠ [])
    {tokens : List PlacedToken} {more : List Token}
    (ht : tokens.map (·.token) = argumentTokens arguments comma ++ .closeParen :: more) :
    ∃ placed left, readArguments stop tokens = .ok (placed, left) ∧
      placed.map (·.argument) = arguments ∧ left.map (·.token) = more := by
  induction arguments generalizing tokens with
  | nil =>
    obtain rfl : comma = false := Bool.eq_false_iff.mpr fun ht ↦ hc ht rfl
    obtain ⟨place, left, rfl, hm⟩ := exists_placed ht
    refine ⟨[], left, ?_, rfl, hm⟩
    rw [readArguments, if_pos rfl]
  | cons argument rest ih =>
    obtain ⟨ha, h⟩ := List.forall_mem_cons.mp h
    cases rest with
    | nil =>
      rw [argumentTokens_singleton, List.append_assoc] at ht
      obtain ⟨first, rest, left, rfl, hf, hr, hl⟩ := readArgument_of_tokens stop ha ht
      cases comma with
      | false =>
        obtain ⟨place, left, rfl, hm⟩ := exists_placed hl
        exact ⟨_, left, readArguments_of_closeParen hf hr, rfl, hm⟩
      | true =>
        obtain ⟨commaPlace, close, rfl, hclose⟩ := exists_placed hl
        obtain ⟨place, left, rfl, hm⟩ := exists_placed hclose
        have hn : readArguments stop (⟨.closeParen, place⟩ :: left) = .ok ([], left) := by
          rw [readArguments, if_pos rfl]
        exact ⟨_, left, readArguments_of_comma hf hr hn, rfl, hm⟩
    | cons next others =>
      rw [argumentTokens_cons_cons, List.append_assoc, List.cons_append] at ht
      obtain ⟨first, rest, left, rfl, hf, hr, hl⟩ := readArgument_of_tokens stop ha ht
      obtain ⟨place, left, rfl, hm⟩ := exists_placed hl
      obtain ⟨placed, left', hps, hpa, hm'⟩ := ih h (fun _ ↦ List.cons_ne_nil _ _) hm
      exact ⟨_, left', readArguments_of_comma hf hr hps, by rw [List.map_cons, hpa], hm'⟩

/-- Arguments are read from their tokens and a closing parenthesis alone. -/
theorem tokens_of_readArguments {stop : Nat} {tokens left : List PlacedToken}
    {arguments : List PlacedArgument} (h : readArguments stop tokens = .ok (arguments, left)) :
    ∃ comma, (comma = true → arguments.map (·.argument) ≠ []) ∧
      tokens.map (·.token) =
        argumentTokens (arguments.map (·.argument)) comma ++ .closeParen :: left.map (·.token) := by
  fun_induction readArguments stop tokens generalizing arguments left with
  | case1 => cases h
  | case2 first rest hf =>
    cases h
    exact ⟨false, fun hc ↦ absurd hc Bool.false_ne_true, by rw [List.map_cons, hf]; rfl⟩
  | case3 => cases h
  | case4 => cases h
  | case5 first rest _ argument separator left' hr hs ih =>
    obtain ⟨⟨others, last⟩, hm, he⟩ := map_eq_ok_iff.mp h
    cases he
    obtain ⟨comma, hc, ht⟩ := ih hm
    have hread := tokens_of_readArgument hr
    rw [List.map_cons, hs, ht] at hread
    cases others with
    | nil =>
      -- without further arguments this comma is the one after the last argument
      obtain rfl : comma = false := Bool.eq_false_iff.mpr fun ht ↦ hc ht rfl
      refine ⟨true, fun _ ↦ List.cons_ne_nil _ _, ?_⟩
      rw [List.map_cons, hread, List.map_cons, List.map_nil, argumentTokens_singleton,
        List.append_assoc]
      rfl
    | cons next others =>
      refine ⟨comma, fun _ ↦ List.cons_ne_nil _ _, ?_⟩
      rw [List.map_cons, hread]
      simp only [List.map_cons]
      rw [argumentTokens_cons_cons, List.append_assoc]
      rfl
  | case6 first rest _ argument separator left' hr hs =>
    cases h
    refine ⟨false, fun hc ↦ absurd hc Bool.false_ne_true, ?_⟩
    have hread := tokens_of_readArgument hr
    rw [List.map_cons, hs] at hread
    rw [List.map_cons, hread, List.map_cons, List.map_nil, argumentTokens_singleton,
      List.append_assoc]
    rfl
  | case7 => cases h

/-! ### Clauses -/

private theorem mapM_eq_ok_iff_map {α : Type} {read : PlacedArgument → Except PlacedFault α}
    {write : α → Argument}
    (h : ∀ placed value, read placed = .ok value ↔ placed.argument = write value)
    {arguments : List PlacedArgument} {values : List α} :
    arguments.mapM read = .ok values ↔ arguments.map (·.argument) = values.map write := by
  simp only [mapM_eq_ok_iff, h]
  rw [← List.forall₂_eq_eq_eq, List.forall₂_map_left_iff, List.forall₂_map_right_iff]

/-- The arguments are strings exactly if they are those of some values. -/
theorem stringArguments_eq_ok_iff {clause : String} {arguments : List PlacedArgument}
    {values : List String} :
    stringArguments clause arguments = .ok values ↔
      arguments.map (·.argument) = values.map .string := by
  apply mapM_eq_ok_iff_map
  rintro ⟨argument, place⟩ value
  cases argument <;> simp

/-- The arguments are numbers exactly if they are those of some values. -/
theorem numberArguments_eq_ok_iff {arguments : List PlacedArgument} {values : List Int64} :
    numberArguments arguments = .ok values ↔
      arguments.map (·.argument) = values.map .number := by
  apply mapM_eq_ok_iff_map
  rintro ⟨argument, place⟩ value
  cases argument <;> simp

/-- The arguments are opcode names and gaps exactly if they are those of a pattern. -/
theorem opcodeArguments_eq_ok_iff {arguments : List PlacedArgument}
    {pattern : List (Option String)} :
    opcodeArguments arguments = .ok pattern ↔
      arguments.map (·.argument) = pattern.map Argument.ofOpcode := by
  apply mapM_eq_ok_iff_map
  intro placed slot
  constructor
  · intro h
    split at h
    · cases h
      rfl
    · cases h
      rfl
    · cases h
  · intro h
    cases placed
    cases slot <;> cases h <;> rfl

private theorem exists_flag_of_bit? {name : String} {bit : UInt32}
    (h : AccessFlag.bit? name = some bit) :
    ∃ flag ∈ AccessFlag.table, flag.name = name ∧ flag.bit = bit := by
  obtain ⟨flag, hf, rfl⟩ := Option.map_eq_some_iff.mp h
  exact ⟨flag, List.mem_of_find?_eq_some hf, by simpa using List.find?_some hf, rfl⟩

/-- The arguments are flags exactly if they are the names of some in the table. -/
theorem flagArguments_eq_ok_iff {arguments : List PlacedArgument} {word : UInt32} :
    flagArguments arguments = .ok word ↔
      ∃ flags : List AccessFlag, (∀ flag ∈ flags, flag ∈ AccessFlag.table) ∧
        arguments.map (·.argument) = flags.map (fun flag ↦ .qualified "AccessFlags" flag.name) ∧
        flags.foldl (fun word flag ↦ word ||| flag.bit) 0 = word := by
  unfold flagArguments
  generalize (0 : UInt32) = start
  induction arguments generalizing start with
  | nil =>
    constructor
    · intro h
      cases h
      exact ⟨[], nofun, rfl, rfl⟩
    · rintro ⟨flags, _, ha, rfl⟩
      obtain rfl := List.map_eq_nil_iff.mp ha.symm
      rfl
  | cons placed arguments ih =>
    rw [List.foldlM_cons]
    constructor
    · intro h
      split at h
      · next name hp =>
        cases hb : AccessFlag.bit? name with
        | none =>
          rw [hb] at h
          cases h
        | some bit =>
          rw [hb] at h
          obtain ⟨flags, hk, ha, hw⟩ := (ih _).mp h
          obtain ⟨flag, hf, rfl, rfl⟩ := exists_flag_of_bit? hb
          refine ⟨flag :: flags, List.forall_mem_cons.mpr ⟨hf, hk⟩, ?_, hw⟩
          rw [List.map_cons, List.map_cons, hp, ha]
      · cases h
    · rintro ⟨flags, hk, ha, hw⟩
      cases flags with
      | nil => cases ha
      | cons flag flags =>
        obtain ⟨hf, hk⟩ := List.forall_mem_cons.mp hk
        obtain ⟨hp, ha⟩ := List.cons.inj ha
        simp only [hp, AccessFlag.bit?_name flag hf]
        exact (ih _).mpr ⟨flags, hk, ha, hw⟩

/-- A clause is accepted exactly if it makes a demand, which the predicate then has. -/
theorem addClause_eq_ok_iff {predicate extended : Predicate} {place : Nat} {name : String}
    {arguments : List PlacedArgument} :
    predicate.addClause place name arguments = .ok extended ↔
      ∃ demand : Demand, demand.name = name ∧ demand.arguments = arguments.map (·.argument) ∧
        demand.addTo predicate = extended := by
  constructor
  · intro h
    unfold Predicate.addClause at h
    split at h
    · obtain ⟨word, hf, rfl⟩ := map_eq_ok_iff.mp h
      obtain ⟨flags, hk, ha, rfl⟩ := flagArguments_eq_ok_iff.mp hf
      exact ⟨.accessFlags flags hk, rfl, ha.symm, rfl⟩
    · split at h
      · next type hs =>
        cases h
        exact ⟨.returns type, rfl, (stringArguments_eq_ok_iff.mp hs).symm, rfl⟩
      · cases h
      · cases h
    · obtain ⟨types, hs, rfl⟩ := map_eq_ok_iff.mp h
      exact ⟨.parameters types, rfl, (stringArguments_eq_ok_iff.mp hs).symm, rfl⟩
    · obtain ⟨values, hs, rfl⟩ := map_eq_ok_iff.mp h
      exact ⟨.strings values, rfl, (stringArguments_eq_ok_iff.mp hs).symm, rfl⟩
    · obtain ⟨signatures, hs, rfl⟩ := map_eq_ok_iff.mp h
      exact ⟨.invokes signatures, rfl, (stringArguments_eq_ok_iff.mp hs).symm, rfl⟩
    · obtain ⟨values, hn, rfl⟩ := map_eq_ok_iff.mp h
      exact ⟨.literals values, rfl, (numberArguments_eq_ok_iff.mp hn).symm, rfl⟩
    · obtain ⟨pattern, ho, rfl⟩ := map_eq_ok_iff.mp h
      exact ⟨.opcodes pattern, rfl, (opcodeArguments_eq_ok_iff.mp ho).symm, rfl⟩
    · cases h
  · rintro ⟨demand, rfl, ha, rfl⟩
    cases demand with
    | accessFlags flags hk =>
      exact map_eq_ok_iff.mpr ⟨_, flagArguments_eq_ok_iff.mpr ⟨flags, hk, ha.symm, rfl⟩, rfl⟩
    | returns type =>
      have hs : stringArguments "returns" arguments = .ok [type] :=
        stringArguments_eq_ok_iff.mpr ha.symm
      simp [Demand.name, Demand.kind, FeatureKind.clauseName, Predicate.addClause, hs, Demand.addTo]
    | parameters types =>
      exact map_eq_ok_iff.mpr ⟨types, stringArguments_eq_ok_iff.mpr ha.symm, rfl⟩
    | strings values =>
      exact map_eq_ok_iff.mpr ⟨values, stringArguments_eq_ok_iff.mpr ha.symm, rfl⟩
    | invokes signatures =>
      exact map_eq_ok_iff.mpr ⟨signatures, stringArguments_eq_ok_iff.mpr ha.symm, rfl⟩
    | literals values =>
      exact map_eq_ok_iff.mpr ⟨values, numberArguments_eq_ok_iff.mpr ha.symm, rfl⟩
    | opcodes pattern =>
      exact map_eq_ok_iff.mpr ⟨pattern, opcodeArguments_eq_ok_iff.mpr ha.symm, rfl⟩

private theorem Demand.readable (demand : Demand) : ∀ a ∈ demand.arguments, a.Readable := by
  intro a ha
  cases demand with
  | accessFlags flags hk =>
    obtain ⟨flag, _, rfl⟩ := List.mem_map.mp ha
    exact show "AccessFlags" ≠ "null" by decide
  | returns type =>
    obtain rfl := List.mem_singleton.mp ha
    trivial
  | opcodes pattern =>
    obtain ⟨slot, _, rfl⟩ := List.mem_map.mp ha
    cases slot with
    | none => trivial
    | some name => exact show "Opcode" ≠ "null" by decide
  | parameters values | strings values | invokes values | literals values =>
    obtain ⟨value, _, rfl⟩ := List.mem_map.mp ha
    trivial

/-! ### Source texts -/

private theorem readClauses_step {stop place openPlace : Nat} {seen : List String} {name : String}
    (hn : name ∉ seen) {predicate extended : Predicate} {rest left : List PlacedToken}
    {arguments : List PlacedArgument} (hr : readArguments stop rest = .ok (arguments, left))
    (ha : predicate.addClause place name arguments = .ok extended) :
    Predicate.readClauses stop seen predicate
        (⟨.identifier name, place⟩ :: ⟨.openParen, openPlace⟩ :: rest) =
      Predicate.readClauses stop (name :: seen) extended left := by
  rw [Predicate.readClauses, if_neg hn]
  split
  · next he =>
    rw [hr] at he
    cases he
  · next he =>
    rw [hr] at he
    cases he
    rw [ha]

/-- Clauses have names of their own, and none of the names already seen. -/
def Fresh (seen : List String) (clauses : List SourceClause) : Prop :=
  (clauses.map SourceClause.name).Nodup ∧ ∀ c ∈ clauses, c.name ∉ seen

private theorem fresh_cons_iff {seen : List String} {clause : SourceClause}
    {clauses : List SourceClause} :
    Fresh seen (clause :: clauses) ↔ clause.name ∉ seen ∧ Fresh (clause.name :: seen) clauses := by
  simp only [Fresh, List.map_cons, List.nodup_cons, List.mem_map, not_exists, not_and,
    List.mem_cons, not_or, forall_eq_or_imp]
  constructor
  · rintro ⟨⟨hc, hd⟩, hs, hn⟩
    exact ⟨hs, hd, fun c hm ↦ ⟨hc c hm, hn c hm⟩⟩
  · rintro ⟨hs, hd, hn⟩
    exact ⟨⟨fun c hm ↦ (hn c hm).1, hd⟩, hs, fun c hm ↦ (hn c hm).2⟩

/-- The tokens of clauses before a closing brace are read as what the clauses demand together. -/
theorem readClauses_of_tokens (stop : Nat) {seen : List String} {clauses : List SourceClause}
    (hf : Fresh seen clauses) {tokens : List PlacedToken} {more : List Token}
    (ht : tokens.map (·.token) = clauses.flatMap SourceClause.tokens ++ .closeBrace :: more)
    (predicate : Predicate) :
    ∃ left, Predicate.readClauses stop seen predicate tokens =
        .ok ((clauses.map (·.demand)).foldl Demand.addTo predicate, left) ∧
      left.map (·.token) = more := by
  induction clauses generalizing seen tokens predicate with
  | nil =>
    obtain ⟨place, left, rfl, hm⟩ := exists_placed ht
    refine ⟨left, ?_, hm⟩
    rw [Predicate.readClauses]
    rfl
  | cons clause clauses ih =>
    obtain ⟨hs, hf⟩ := fresh_cons_iff.mp hf
    rw [List.flatMap_cons, SourceClause.tokens, List.cons_append, List.cons_append,
      List.cons_append, List.cons_append, List.append_assoc, List.append_assoc] at ht
    obtain ⟨place, rest, rfl, ho⟩ := exists_placed ht
    obtain ⟨openPlace, rest, rfl, hc⟩ := exists_placed ho
    obtain ⟨arguments, left, hr, ha, hl⟩ := readArguments_of_tokens stop clause.demand.readable
      clause.arguments_ne_nil hc
    have hadd : predicate.addClause place clause.name arguments =
        .ok (clause.demand.addTo predicate) :=
      addClause_eq_ok_iff.mpr ⟨clause.demand, rfl, ha.symm, rfl⟩
    rw [readClauses_step hs hr hadd]
    exact ih hf hl _

/-- Clauses are read from their tokens and a closing brace alone. -/
theorem tokens_of_readClauses {stop : Nat} {seen : List String} {predicate result : Predicate}
    {tokens left : List PlacedToken}
    (h : Predicate.readClauses stop seen predicate tokens = .ok (result, left)) :
    ∃ clauses, Fresh seen clauses ∧
      tokens.map (·.token) =
        clauses.flatMap SourceClause.tokens ++ .closeBrace :: left.map (·.token) ∧
      (clauses.map (·.demand)).foldl Demand.addTo predicate = result := by
  fun_induction Predicate.readClauses stop seen predicate tokens with
  | case1 => cases h
  | case2 seen predicate place rest =>
    cases h
    exact ⟨[], ⟨List.nodup_nil, nofun⟩, rfl, rfl⟩
  | case3 => cases h
  | case4 => cases h
  | case5 => cases h
  | case6 seen predicate name place hn openPlace rest arguments left' hr extended ha ih =>
    obtain ⟨demand, rfl, hd, rfl⟩ := addClause_eq_ok_iff.mp ha
    obtain ⟨comma, hc, hargs⟩ := tokens_of_readArguments hr
    obtain ⟨clauses, hf, ht, hresult⟩ := ih h
    rw [← hd] at hc hargs
    refine ⟨⟨demand, comma, hc⟩ :: clauses, fresh_cons_iff.mpr ⟨hn, hf⟩, ?_, hresult⟩
    rw [List.map_cons, List.map_cons, hargs, ht]
    simp [SourceClause.tokens, SourceClause.name]
  | case7 => exact (faultNext_ne_ok h).elim
  | case8 => cases h

/-- Tokens are those of a source text that makes some demands, each by a clause with a name of its
own. -/
def IsSource (demands : List Demand) (tokens : List Token) : Prop :=
  ∃ clauses : List SourceClause, clauses.map (·.demand) = demands ∧
    (clauses.map SourceClause.name).Nodup ∧ tokens = sourceTokens clauses

/-- The reader accepts exactly the tokens of source texts, and reads what they demand together. -/
theorem ofTokens_eq_ok_iff {stop : Nat} {tokens : List PlacedToken} {predicate : Predicate} :
    Predicate.ofTokens stop tokens = .ok predicate ↔
      ∃ demands, IsSource demands (tokens.map (·.token)) ∧
        demands.foldl Demand.addTo {} = predicate := by
  constructor
  · intro h
    unfold Predicate.ofTokens at h
    split at h
    · next rest =>
      split at h
      · cases h
      · next result hr =>
        cases h
        obtain ⟨clauses, hf, ht, hp⟩ := tokens_of_readClauses hr
        refine ⟨_, ⟨clauses, rfl, hf.1, ?_⟩, hp⟩
        rw [List.map_cons, List.map_cons, ht]
        rfl
      · cases h
    · exact (faultNext_ne_ok h).elim
    · exact (faultNext_ne_ok h).elim
  · rintro ⟨_, ⟨clauses, rfl, hn, ht⟩, rfl⟩
    obtain ⟨place, rest, rfl, ho⟩ := exists_placed ht
    obtain ⟨openPlace, rest, rfl, hc⟩ := exists_placed ho
    obtain ⟨left, hr, hm⟩ := readClauses_of_tokens stop ⟨hn, fun _ _ ↦ List.not_mem_nil⟩ hc {}
    obtain rfl := List.map_eq_nil_iff.mp hm
    simp only [Predicate.ofTokens, hr]

/-- A text that can be split into tokens is read from its tokens. -/
theorem ofSource_of_lex {source : String} {tokens : List PlacedToken}
    (h : lex source.toList = .ok tokens) :
    Predicate.ofSource source =
      (Predicate.ofTokens source.toList.length tokens).mapError (·.diagnose source.toList) := by
  rw [Predicate.ofSource, Predicate.ofText, h]

/-- A source text is read as what it demands. -/
theorem IsSource.ofSource_eq {demands : List Demand} {source : String}
    {tokens : List PlacedToken} (hs : IsSource demands (tokens.map (·.token)))
    (h : lex source.toList = .ok tokens) :
    Predicate.ofSource source = .ok (demands.foldl Demand.addTo {}) := by
  rw [ofSource_of_lex h, ofTokens_eq_ok_iff.mpr ⟨demands, hs, rfl⟩]
  rfl

end MethodPrint
