import MethodPrint.Proofs.Predicate.Grammar

/-!
# Reading fingerprints back

A rendered clause makes a demand that the grammar knows, with no comma after its last argument. The
tokens of rendered clauses, one of each kind at most, are therefore those of a source text, and are
read as the predicate that the clauses describe together.
-/

namespace MethodPrint

namespace Clause

/-- A predicate with what a clause demands. -/
def addTo (predicate : Predicate) : Clause → Predicate
  | .accessFlags flags => { predicate with accessFlags := some flags }
  | .returns type => { predicate with returnType := some type }
  | .parameters types => { predicate with parameters := some types }
  | .strings values => { predicate with strings := values }
  | .invokes signatures => { predicate with invokes := signatures }
  | .literals values => { predicate with literals := values }
  | .opcodes names => { predicate with opcodes := slots names }

/-- What a clause demands as it is rendered. -/
def demand : Clause → Demand
  | .accessFlags flags =>
    .accessFlags (AccessFlag.table.filter fun flag ↦ flags &&& flag.bit != 0)
      fun _ hf ↦ (List.mem_filter.mp hf).1
  | .returns type => .returns type
  | .parameters types => .parameters types
  | .strings values => .strings values
  | .invokes signatures => .invokes signatures
  | .literals values => .literals values
  | .opcodes names => .opcodes (slots names)

/-- A clause as it stands in a rendered text. -/
def source (clause : Clause) : SourceClause := ⟨clause.demand, false, nofun⟩

private theorem kind_demand (clause : Clause) : clause.demand.kind = clause.kind := by
  cases clause <;> rfl

private theorem arguments_demand (clause : Clause) :
    clause.demand.arguments = clause.arguments := by
  cases clause with
  | accessFlags flags => simp [demand, Demand.arguments, arguments, AccessFlag.names]
  | _ => rfl

private theorem addTo_demand {clause : Clause} (hn : clause.Named) (predicate : Predicate) :
    clause.demand.addTo predicate = clause.addTo predicate := by
  cases clause with
  | accessFlags flags =>
    simp [demand, Demand.addTo, addTo, AccessFlag.foldl_filter_table,
      AccessFlag.named_of_unnamed_eq_zero hn]
  | _ => rfl

private theorem name_source (clause : Clause) :
    clause.source.name = clause.kind.clauseName := by
  rw [SourceClause.name, Demand.name, source, kind_demand]

private theorem tokens_source (clause : Clause) : clause.source.tokens = clause.written.tokens := by
  rw [SourceClause.tokens, name_source, WrittenClause.tokens]
  simp [source, written, arguments_demand, argumentTokens]

end Clause

private theorem fingerprintTokens_eq (clauses : List Clause) :
    fingerprintTokens (clauses.map Clause.written) = sourceTokens (clauses.map Clause.source) := by
  simp only [fingerprintTokens, sourceTokens, List.flatMap_map, Clause.tokens_source]

private theorem foldl_addTo_demand {clauses : List Clause} (hn : ∀ c ∈ clauses, c.Named)
    (predicate : Predicate) :
    (clauses.map Clause.demand).foldl Demand.addTo predicate =
      clauses.foldl Clause.addTo predicate := by
  rw [List.foldl_map]
  apply List.foldl_ext
  intro predicate clause hc
  exact Clause.addTo_demand (hn clause hc) predicate

/-- The text of rendered clauses of different kinds is accepted as what they demand together. -/
theorem ofSource_fingerprintText {clauses : List Clause} (hn : ∀ c ∈ clauses, c.Named)
    (hi : ∀ c ∈ clauses, c.Identified) (hd : (clauses.map Clause.kind).Nodup) :
    Predicate.ofSource (fingerprintText (clauses.map Clause.written)) =
      .ok (clauses.foldl Clause.addTo {}) := by
  have hp : ∀ c ∈ clauses, c.written.Proper := fun c hc ↦ Clause.proper_written (hi c hc)
  obtain ⟨tokens, hlex, ht⟩ := lexes_fingerprintText (List.forall_mem_map.mpr hp) 0
  have hnames : ((clauses.map Clause.source).map SourceClause.name).Nodup := by
    rw [List.map_map]
    apply List.pairwise_map.mpr
    apply (List.pairwise_map.mp hd).imp
    intro a b hab he
    rw [Function.comp_apply, Function.comp_apply, Clause.name_source, Clause.name_source,
      FeatureKind.clauseName_inj] at he
    exact hab he
  have hs : IsSource (clauses.map Clause.demand) (tokens.map (·.token)) :=
    ⟨clauses.map Clause.source, by simp [Clause.source], hnames,
      ht.trans (fingerprintTokens_eq clauses)⟩
  rw [hs.ofSource_eq hlex, foldl_addTo_demand hn]

end MethodPrint
