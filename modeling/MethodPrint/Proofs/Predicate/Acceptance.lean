import Mathlib
import MethodPrint.Proofs.Predicate.Grammar
import MethodPrint.Resolve

/-!
# What the predicate language accepts

A text that can be split into tokens is accepted exactly if its tokens are those of a source text.
Each field of the predicate is then what the clause for it demands, or the default if there is no
such clause, so that the order of the clauses does not matter.
-/

namespace MethodPrint

namespace Demand

/-- The flag word that a demand is for. -/
def flags? : Demand → Option UInt32
  | .accessFlags flags _ => some (flags.foldl (fun word flag ↦ word ||| flag.bit) 0)
  | _ => none

/-- The return type that a demand is for. -/
def returnType? : Demand → Option String
  | .returns type => some type
  | _ => none

/-- The parameter types that a demand is for. -/
def parameters? : Demand → Option (List String)
  | .parameters types => some types
  | _ => none

/-- The strings that a demand is for. -/
def strings? : Demand → Option (List String)
  | .strings values => some values
  | _ => none

/-- The signatures that a demand is for. -/
def invokes? : Demand → Option (List String)
  | .invokes signatures => some signatures
  | _ => none

/-- The numbers that a demand is for. -/
def literals? : Demand → Option (List Int64)
  | .literals values => some values
  | _ => none

/-- The opcode pattern that a demand is for. -/
def opcodes? : Demand → Option (List (Option String))
  | .opcodes pattern => some pattern
  | _ => none

end Demand

/-- The predicate with each field as the first demand for it says, or as the default says. -/
def Predicate.ofDemands (demands : List Demand) : Predicate where
  accessFlags := demands.findSome? Demand.flags?
  returnType := demands.findSome? Demand.returnType?
  parameters := demands.findSome? Demand.parameters?
  strings := (demands.findSome? Demand.strings?).getD []
  invokes := (demands.findSome? Demand.invokes?).getD []
  literals := (demands.findSome? Demand.literals?).getD []
  opcodes := (demands.findSome? Demand.opcodes?).getD []

/-! ### Demands of different kinds -/

private theorem foldl_addTo_field {α β : Type} (field : Predicate → α) (said : Demand → Option β)
    (update : Option β → α → α) (kind : FeatureKind) {demands : List Demand}
    (hd : (demands.map Demand.kind).Nodup) (predicate : Predicate)
    (hn : ∀ value, update none value = value := by exact fun _ ↦ rfl)
    (hf : ∀ predicate demand, field (Demand.addTo predicate demand) =
      update (said demand) (field predicate) := by intro _ demand; cases demand <;> rfl)
    (hk : ∀ demand, demand.kind ≠ kind → said demand = none := by
      intro demand h; cases demand <;> first | rfl | exact absurd rfl h) :
    field (demands.foldl Demand.addTo predicate) =
      update (demands.findSome? said) (field predicate) := by
  induction demands generalizing predicate with
  | nil => exact (hn _).symm
  | cons demand demands ih =>
    obtain ⟨hm, hd⟩ := List.nodup_cons.mp hd
    rw [List.foldl_cons, ih hd, hf, List.findSome?_cons]
    cases hs : said demand with
    | none => rw [hn]
    | some value =>
      -- this demand is the only one of its kind, so no later one says anything of the field
      have hkind : demand.kind = kind := by
        apply Decidable.byContradiction
        intro h
        rw [hk demand h] at hs
        cases hs
      have hlater : demands.findSome? said = none := by
        rw [List.findSome?_eq_none_iff]
        intro other ho
        apply hk
        rintro rfl
        exact hm (hkind ▸ List.mem_map_of_mem ho)
      rw [hlater, hn]

/-- Demands of different kinds together are read field by field. -/
theorem foldl_addTo_eq_ofDemands {demands : List Demand}
    (hd : (demands.map Demand.kind).Nodup) :
    demands.foldl Demand.addTo {} = Predicate.ofDemands demands := by
  have haccess := foldl_addTo_field (·.accessFlags) Demand.flags? Option.or .accessFlags hd {}
  have hreturn := foldl_addTo_field (·.returnType) Demand.returnType? Option.or .returnType hd {}
  have hparameters :=
    foldl_addTo_field (·.parameters) Demand.parameters? Option.or .parameters hd {}
  have hstrings := foldl_addTo_field (·.strings) Demand.strings? Option.getD .stringLiteral hd {}
  have hinvokes := foldl_addTo_field (·.invokes) Demand.invokes? Option.getD .invokedMethod hd {}
  have hliterals := foldl_addTo_field (·.literals) Demand.literals? Option.getD .literal hd {}
  have hopcodes := foldl_addTo_field (·.opcodes) Demand.opcodes? Option.getD .opcodeAt hd {}
  rw [Option.or_none] at haccess hreturn hparameters
  rw [Predicate.ofDemands, ← haccess, ← hreturn, ← hparameters, ← hstrings, ← hinvokes,
    ← hliterals, ← hopcodes]

private theorem addTo_comm {a b : Demand} (h : a.kind ≠ b.kind) (predicate : Predicate) :
    b.addTo (a.addTo predicate) = a.addTo (b.addTo predicate) := by
  cases a <;> cases b <;> first | rfl | exact absurd rfl h

/-- The order of demands of different kinds does not matter. -/
theorem foldl_addTo_perm {demands permuted : List Demand} (hp : demands.Perm permuted)
    (hd : (demands.map Demand.kind).Nodup) (predicate : Predicate) :
    demands.foldl Demand.addTo predicate = permuted.foldl Demand.addTo predicate := by
  apply hp.foldl_eq'
  intro a ha b hb predicate
  by_cases hk : a.kind = b.kind
  · obtain rfl : a = b := List.inj_on_of_nodup_map hd ha hb hk
    rfl
  · exact addTo_comm hk predicate

private theorem IsSource.nodup_kind {demands : List Demand} {tokens : List Token}
    (h : IsSource demands tokens) : (demands.map Demand.kind).Nodup := by
  obtain ⟨clauses, rfl, hn, _⟩ := h
  apply List.Nodup.of_map FeatureKind.clauseName
  rw [List.map_map, List.map_map]
  exact hn

/-! ### Texts that can be split into tokens -/

private theorem IsSource.language_eq {demands : List Demand} {source : String}
    {tokens : List PlacedToken} (hs : IsSource demands (tokens.map (·.token)))
    (h : lex source.toList = .ok tokens) :
    Evaluator.language source = .accepted (demands.foldl Demand.addTo {}) := by
  rw [Evaluator.language, hs.ofSource_eq h]

private theorem language_cases {source : String} {tokens : List PlacedToken}
    (h : lex source.toList = .ok tokens) :
    (∃ demands, IsSource demands (tokens.map (·.token))) ∨
      ∃ diagnostic, Evaluator.language source = .rejected diagnostic := by
  cases hr : Predicate.ofTokens source.toList.length tokens with
  | ok predicate =>
    obtain ⟨demands, hs, _⟩ := ofTokens_eq_ok_iff.mp hr
    exact .inl ⟨demands, hs⟩
  | error found =>
    refine .inr ⟨found.diagnose source.toList, ?_⟩
    rw [Evaluator.language, ofSource_of_lex h, hr]
    rfl

/-- A text that can be split into tokens is accepted exactly if these are the tokens of a source
text, and as the predicate that has each field from the clause for it. Source texts with the same
demands in another order are accepted as the same predicate. All other texts are rejected. -/
theorem language_eq_accepted_iff {source : String} {tokens : List PlacedToken}
    (h : lex source.toList = .ok tokens) :
    (∀ predicate, Evaluator.language source = .accepted predicate ↔
        ∃ demands, IsSource demands (tokens.map (·.token)) ∧
          Predicate.ofDemands demands = predicate) ∧
      (∀ demands permuted other others, IsSource demands (tokens.map (·.token)) →
        demands.Perm permuted → lex other.toList = .ok others →
          IsSource permuted (others.map (·.token)) →
            Evaluator.language other = Evaluator.language source) ∧
      ((∀ demands, ¬IsSource demands (tokens.map (·.token))) →
        ∃ diagnostic, Evaluator.language source = .rejected diagnostic) := by
  refine ⟨fun predicate ↦ ⟨fun ha ↦ ?_, ?_⟩, ?_, fun hn ↦ ?_⟩
  · rcases language_cases h with ⟨demands, hs⟩ | ⟨diagnostic, hr⟩
    · rw [hs.language_eq h] at ha
      cases ha
      exact ⟨demands, hs, (foldl_addTo_eq_ofDemands hs.nodup_kind).symm⟩
    · rw [hr] at ha
      cases ha
  · rintro ⟨demands, hs, rfl⟩
    rw [hs.language_eq h, foldl_addTo_eq_ofDemands hs.nodup_kind]
  · intro demands permuted other others hs hp ho hs'
    rw [hs.language_eq h, hs'.language_eq ho, foldl_addTo_perm hp hs.nodup_kind]
  · exact (language_cases h).resolve_left fun ⟨demands, hs⟩ ↦ hn demands hs

/-- Two texts that differ in the order of their clauses and in a comma after the last argument. -/
theorem language_eq_accepted_iff_permuted :
    let source := "fingerprint\x7bopcodes(null,)accessFlags()\x7d"
    let other := "fingerprint\x7baccessFlags()opcodes(null)\x7d"
    (∃ tokens, lex source.toList = .ok tokens) ∧ (∃ others, lex other.toList = .ok others) ∧
      Evaluator.language source = .accepted { accessFlags := some 0, opcodes := [none] } ∧
      Evaluator.language other = Evaluator.language source := by
  intro source other
  let flags : Demand := .accessFlags [] nofun
  let opcodes : Demand := .opcodes [none]
  let clauses : List SourceClause := [⟨opcodes, true, by decide⟩, ⟨flags, false, nofun⟩]
  let permuted : List SourceClause := [⟨flags, false, nofun⟩, ⟨opcodes, false, nofun⟩]
  obtain ⟨tokens, hl, ht⟩ : ∃ tokens, lex source.toList = .ok tokens ∧
      tokens.map (·.token) = sourceTokens clauses := map_eq_ok_iff.mp (by cbv)
  obtain ⟨others, ho, ht'⟩ : ∃ others, lex other.toList = .ok others ∧
      others.map (·.token) = sourceTokens permuted := map_eq_ok_iff.mp (by cbv)
  have hs : IsSource [opcodes, flags] (tokens.map (·.token)) := ⟨clauses, rfl, by decide, ht⟩
  have hs' : IsSource [flags, opcodes] (others.map (·.token)) := ⟨permuted, rfl, by decide, ht'⟩
  obtain ⟨haccepted, hpermuted, _⟩ := language_eq_accepted_iff hl
  refine ⟨⟨tokens, hl⟩, ⟨others, ho⟩, (haccepted _).mpr ⟨_, hs, rfl⟩, ?_⟩
  exact hpermuted _ _ other others hs (List.Perm.swap ..) ho hs'

end MethodPrint
