import MethodPrint.Proofs.Predicate.Grouping
import MethodPrint.Proofs.Predicate.Reading
import MethodPrint.Proofs.Traversal
import MethodPrint.Resolve

/-!
# Rendering and reading back

The text of a fingerprint is accepted as the predicate that states exactly the features it was
rendered from: every value of their kinds, each once and in order, and nothing else.
-/

namespace MethodPrint

/-! ### Stated features -/

/-- A predicate states some features: it demands their values, and nothing of the kinds that none
of them has. -/
structure Predicate.States (features : List Feature) (predicate : Predicate) : Prop where
  accessFlags : ∀ flags, predicate.accessFlags = some flags ↔ .accessFlags flags ∈ features
  returnType : ∀ type, predicate.returnType = some type ↔ .returnType type ∈ features
  parameters : ∀ types, predicate.parameters = some types ↔ .parameters types ∈ features
  strings : predicate.strings = (features.filterMap Feature.string?).eraseDups
  invokes : predicate.invokes = (features.filterMap Feature.signature?).eraseDups
  literals : predicate.literals = (features.filterMap Feature.literal?).eraseDups
  /-- The opcode names end with the largest position of an opcode. -/
  length : ∀ place, place < predicate.opcodes.length ↔
    ∃ index opcode, .opcodeAt index opcode ∈ features ∧ place ≤ index
  named : ∀ index opcode, .opcodeAt index opcode ∈ features →
    ∃ name, Opcode.name? opcode = some name ∧ predicate.opcodes[index]? = some (some name)
  gap : ∀ index, (∀ opcode, .opcodeAt index opcode ∉ features) →
    ∀ name, predicate.opcodes[index]? ≠ some (some name)

/-- Features are stated by one predicate at most. -/
theorem Predicate.States.unique {features : List Feature} {p q : Predicate}
    (hp : p.States features) (hq : q.States features) : p = q := by
  have hopcodes : p.opcodes = q.opcodes := by
    apply List.ext_getElem?
    intro index
    by_cases ho : ∃ opcode, .opcodeAt index opcode ∈ features
    · obtain ⟨opcode, ho⟩ := ho
      obtain ⟨name, hn, hi⟩ := hp.named index opcode ho
      obtain ⟨name', hn', hi'⟩ := hq.named index opcode ho
      rw [hi, hi', ← hn, ← hn']
    · rw [not_exists] at ho
      have hlen : index < p.opcodes.length ↔ index < q.opcodes.length :=
        (hp.length index).trans (hq.length index).symm
      cases hi : p.opcodes[index]? with
      | none =>
        rw [List.getElem?_eq_none_iff] at hi
        exact (List.getElem?_eq_none (by omega)).symm
      | some slot =>
        have hl := hlen.mp (List.getElem?_eq_some_iff.mp hi).1
        have hi' := List.getElem?_eq_getElem hl
        rw [hi']
        cases slot with
        | some name => exact absurd hi (hp.gap index ho name)
        | none =>
          cases hs : q.opcodes[index] with
          | none => rfl
          | some name => exact absurd (hi'.trans (congrArg some hs)) (hq.gap index ho name)
  have haccess : p.accessFlags = q.accessFlags :=
    Option.ext fun flags ↦ (hp.accessFlags flags).trans (hq.accessFlags flags).symm
  have hreturn : p.returnType = q.returnType :=
    Option.ext fun type ↦ (hp.returnType type).trans (hq.returnType type).symm
  have hparameters : p.parameters = q.parameters :=
    Option.ext fun types ↦ (hp.parameters types).trans (hq.parameters types).symm
  have hstrings := hp.strings.trans hq.strings.symm
  have hinvokes := hp.invokes.trans hq.invokes.symm
  have hliterals := hp.literals.trans hq.literals.symm
  cases p
  cases q
  rw [Predicate.mk.injEq]
  exact ⟨haccess, hreturn, hparameters, hstrings, hinvokes, hliterals, hopcodes⟩

namespace Clause

/-! ### Demands of clauses -/

/-- A predicate demands what a clause says. -/
def InForce (predicate : Predicate) : Clause → Prop
  | .accessFlags flags => predicate.accessFlags = some flags
  | .returns type => predicate.returnType = some type
  | .parameters types => predicate.parameters = some types
  | .strings values => predicate.strings = values
  | .invokes signatures => predicate.invokes = signatures
  | .literals values => predicate.literals = values
  | .opcodes names => predicate.opcodes = slots names

/-- A predicate demands nothing of a kind. -/
def Silent (predicate : Predicate) : FeatureKind → Prop
  | .accessFlags => predicate.accessFlags = none
  | .returnType => predicate.returnType = none
  | .parameters => predicate.parameters = none
  | .stringLiteral => predicate.strings = []
  | .invokedMethod => predicate.invokes = []
  | .literal => predicate.literals = []
  | .opcodeAt => predicate.opcodes = []

private theorem inForce_addTo (predicate : Predicate) (clause : Clause) :
    clause.InForce (clause.addTo predicate) := by
  cases clause <;> rfl

private theorem InForce.addTo {predicate : Predicate} {clause : Clause}
    (h : clause.InForce predicate) {other : Clause} (hk : other.kind ≠ clause.kind) :
    clause.InForce (other.addTo predicate) := by
  cases clause <;> cases other <;> first | exact h | exact absurd rfl hk

private theorem Silent.addTo {predicate : Predicate} {kind : FeatureKind}
    (h : Silent predicate kind) {clause : Clause} (hk : clause.kind ≠ kind) :
    Silent (clause.addTo predicate) kind := by
  cases clause <;> cases kind <;> first | exact h | exact absurd rfl hk

private theorem InForce.foldl {predicate : Predicate} {clause : Clause}
    (h : clause.InForce predicate) {others : List Clause}
    (hk : clause.kind ∉ others.map Clause.kind) :
    clause.InForce (others.foldl Clause.addTo predicate) := by
  induction others generalizing predicate with
  | nil => exact h
  | cons other others ih =>
    rw [List.map_cons, List.mem_cons, not_or] at hk
    exact ih (h.addTo fun he ↦ hk.1 he.symm) hk.2

/-- Clauses of different kinds are all in force together. -/
theorem inForce_foldl {clauses : List Clause} (hd : (clauses.map kind).Nodup)
    (predicate : Predicate) :
    ∀ clause ∈ clauses, clause.InForce (clauses.foldl Clause.addTo predicate) := by
  induction clauses generalizing predicate with
  | nil => exact nofun
  | cons first clauses ih =>
    rw [List.map_cons, List.nodup_cons] at hd
    exact List.forall_mem_cons.mpr ⟨(inForce_addTo predicate first).foldl hd.1, ih hd.2 _⟩

/-- Nothing is demanded of a kind without a clause. -/
theorem silent_foldl {clauses : List Clause} {kind : FeatureKind}
    (hk : kind ∉ clauses.map Clause.kind) {predicate : Predicate} (h : Silent predicate kind) :
    Silent (clauses.foldl Clause.addTo predicate) kind := by
  induction clauses generalizing predicate with
  | nil => exact h
  | cons clause clauses ih =>
    rw [List.map_cons, List.mem_cons, not_or] at hk
    exact ih hk.2 (h.addTo fun he ↦ hk.1 he.symm)

/-! ### Opcode slots -/

private theorem le_foldl_max_iff {names : List (Nat × String)} {place start : Nat} :
    place ≤ names.foldl (fun last entry ↦ max last entry.1) start ↔
      place ≤ start ∨ ∃ entry ∈ names, place ≤ entry.1 := by
  induction names generalizing start with
  | nil => simp
  | cons entry names ih =>
    have hmax : place ≤ max start entry.1 ↔ place ≤ start ∨ place ≤ entry.1 := by omega
    rw [List.foldl_cons, ih, hmax]
    simp only [List.mem_cons, exists_eq_or_imp, or_assoc]

/-- The last position is below a bound if all are. -/
theorem lastPosition_lt_iff {names : List (Nat × String)} {bound : Nat} (h0 : 0 < bound) :
    lastPosition names < bound ↔ ∀ entry ∈ names, entry.1 < bound := by
  rw [← Nat.not_le, lastPosition, le_foldl_max_iff]
  simp [Nat.not_le.mpr h0]

/-- The slots end with the largest position that has a name. -/
theorem lt_length_slots_iff {names : List (Nat × String)} (hne : names ≠ []) {place : Nat} :
    place < (slots names).length ↔ ∃ entry ∈ names, place ≤ entry.1 := by
  rw [slots, lastPosition, List.length_map, List.length_range, Nat.lt_succ_iff, le_foldl_max_iff]
  constructor
  · rintro (h0 | h)
    · obtain ⟨entry, hm⟩ := List.exists_mem_of_ne_nil names hne
      exact ⟨entry, hm, by omega⟩
    · exact h
  · exact .inr

/-- The slots have the names that are listed. -/
theorem getElem?_slots_eq_some_iff {names : List (Nat × String)} {index : Nat}
    {name : String} :
    (slots names)[index]? = some (some name) ↔ names.lookup index = some name := by
  rw [slots, List.getElem?_map]
  constructor
  · intro h
    obtain ⟨i, hi, hl⟩ := Option.map_eq_some_iff.mp h
    obtain ⟨hlt, rfl⟩ := List.getElem?_eq_some_iff.mp hi
    rw [List.getElem_range] at hl
    exact hl
  · intro h
    obtain ⟨before, after, rfl, _⟩ := List.lookup_eq_some_iff.mp h
    have hlt : index < lastPosition (before ++ (index, name) :: after) + 1 :=
      Nat.lt_succ_of_le (le_foldl_max_iff.mpr (.inr ⟨(index, name), by simp, Nat.le_refl _⟩))
    rw [List.getElem?_range hlt, Option.map_some, h]

/-! ### Groups -/

private theorem Group.exists_of_kind {features : List Feature} {clauses : List Clause}
    (h : Group features clauses) (kind : FeatureKind) :
    (∃ clause ∈ clauses, clause.kind = kind ∧ clause.Collects features ∧
        clause.InForce (clauses.foldl Clause.addTo {})) ∨
      (∀ f ∈ features, f.kind ≠ kind) ∧ Silent (clauses.foldl Clause.addTo {}) kind := by
  by_cases hk : kind ∈ clauses.map Clause.kind
  · obtain ⟨clause, hc, rfl⟩ := List.mem_map.mp hk
    exact .inl ⟨clause, hc, rfl, h.collects clause hc, inForce_foldl h.nodup {} clause hc⟩
  · refine .inr ⟨fun f hf he ↦ hk ((h.kinds kind).mpr ⟨f, hf, he⟩), silent_foldl hk ?_⟩
    cases kind <;> rfl

private theorem eq_some_iff {α : Type} {demand : Option α} {first : α} {stated : α → Prop}
    (hf : demand = some first) (hc : ∀ value, stated value ↔ value = first) (value : α) :
    demand = some value ↔ stated value := by
  rw [hf, hc, Option.some.injEq, eq_comm]

private theorem eq_some_iff_of_none {α : Type} {demand : Option α} {stated : α → Prop}
    (hs : demand = none) (hn : ∀ value, ¬stated value) (value : α) :
    demand = some value ↔ stated value := by
  rw [hs]
  exact ⟨nofun, fun h ↦ absurd h (hn value)⟩

private theorem eq_eraseDups_of_nil {α : Type} [DecidableEq α] {demand : List α}
    {value? : Feature → Option α} {features : List Feature} (hs : demand = [])
    (hn : ∀ f ∈ features, value? f = none) : demand = (features.filterMap value?).eraseDups := by
  rw [hs, List.filterMap_eq_nil_iff.mpr hn]
  rfl

private theorem Collects.lookup_iff {features : List Feature} {names : List (Nat × String)}
    (h : (opcodes names).Collects features) {index : Nat} :
    (∃ entry ∈ names, entry.1 = index) ↔ ∃ opcode, .opcodeAt index opcode ∈ features := by
  constructor
  · rintro ⟨entry, he, rfl⟩
    obtain ⟨opcode, ho, _⟩ := h.2 entry he
    exact ⟨opcode, ho⟩
  · rintro ⟨opcode, ho⟩
    obtain ⟨name, _, hl⟩ := h.1 index opcode ho
    obtain ⟨before, after, rfl, _⟩ := List.lookup_eq_some_iff.mp hl
    exact ⟨(index, name), by simp, rfl⟩

/-- The clauses of some features together state these features. -/
theorem Group.states {features : List Feature} {clauses : List Clause}
    (h : Group features clauses) : (clauses.foldl Clause.addTo {}).States features where
  accessFlags := by
    rcases h.exists_of_kind .accessFlags with ⟨clause, _, hk, hc, hf⟩ | ⟨hn, hs⟩
    · cases clause <;> cases hk
      exact eq_some_iff hf hc
    · exact eq_some_iff_of_none hs fun value hm ↦ hn _ hm rfl
  returnType := by
    rcases h.exists_of_kind .returnType with ⟨clause, _, hk, hc, hf⟩ | ⟨hn, hs⟩
    · cases clause <;> cases hk
      exact eq_some_iff hf hc
    · exact eq_some_iff_of_none hs fun value hm ↦ hn _ hm rfl
  parameters := by
    rcases h.exists_of_kind .parameters with ⟨clause, _, hk, hc, hf⟩ | ⟨hn, hs⟩
    · cases clause <;> cases hk
      exact eq_some_iff hf hc
    · exact eq_some_iff_of_none hs fun value hm ↦ hn _ hm rfl
  strings := by
    rcases h.exists_of_kind .stringLiteral with ⟨clause, _, hk, hc, hf⟩ | ⟨hn, hs⟩
    · cases clause <;> cases hk
      exact Eq.trans hf hc
    · exact eq_eraseDups_of_nil hs fun f hm ↦ Feature.string?_eq_none (hn f hm)
  invokes := by
    rcases h.exists_of_kind .invokedMethod with ⟨clause, _, hk, hc, hf⟩ | ⟨hn, hs⟩
    · cases clause <;> cases hk
      exact Eq.trans hf hc
    · exact eq_eraseDups_of_nil hs fun f hm ↦ Feature.signature?_eq_none (hn f hm)
  literals := by
    rcases h.exists_of_kind .literal with ⟨clause, _, hk, hc, hf⟩ | ⟨hn, hs⟩
    · cases clause <;> cases hk
      exact Eq.trans hf hc
    · exact eq_eraseDups_of_nil hs fun f hm ↦ Feature.literal?_eq_none (hn f hm)
  length place := by
    rcases h.exists_of_kind .opcodeAt with ⟨clause, hm, hk, hc, hf⟩ | ⟨hn, hs⟩
    · obtain ⟨feature, hfm, hfk⟩ := (h.kinds .opcodeAt).mp (hk ▸ List.mem_map_of_mem hm)
      cases clause <;> cases hk
      next names =>
      have hne : names ≠ [] := by
        cases feature <;> cases hfk
        next index opcode =>
        obtain ⟨entry, he, _⟩ := hc.lookup_iff.mpr ⟨opcode, hfm⟩
        exact List.ne_nil_of_mem he
      have hp : (clauses.foldl Clause.addTo {}).opcodes = slots names := hf
      rw [hp, lt_length_slots_iff hne]
      constructor
      · rintro ⟨entry, he, hle⟩
        obtain ⟨opcode, ho⟩ := hc.lookup_iff.mp ⟨entry, he, rfl⟩
        exact ⟨entry.1, opcode, ho, hle⟩
      · rintro ⟨index, opcode, ho, hle⟩
        obtain ⟨entry, he, rfl⟩ := hc.lookup_iff.mpr ⟨opcode, ho⟩
        exact ⟨entry, he, hle⟩
    · have hp : (clauses.foldl Clause.addTo {}).opcodes = [] := hs
      rw [hp]
      constructor
      · exact nofun
      · rintro ⟨index, opcode, ho, _⟩
        exact absurd rfl (hn _ ho)
  named index opcode ho := by
    rcases h.exists_of_kind .opcodeAt with ⟨clause, _, hk, hc, hf⟩ | ⟨hn, _⟩
    · cases clause <;> cases hk
      next names _ =>
      have hp : (clauses.foldl Clause.addTo {}).opcodes = slots names := hf
      obtain ⟨name, hn, hl⟩ := hc.1 index opcode ho
      rw [hp]
      exact ⟨name, hn, getElem?_slots_eq_some_iff.mpr hl⟩
    · exact absurd rfl (hn _ ho)
  gap index ho name := by
    rcases h.exists_of_kind .opcodeAt with ⟨clause, _, hk, hc, hf⟩ | ⟨_, hs⟩
    · cases clause <;> cases hk
      next names _ =>
      have hp : (clauses.foldl Clause.addTo {}).opcodes = slots names := hf
      intro hg
      rw [hp, getElem?_slots_eq_some_iff] at hg
      obtain ⟨before, after, rfl, _⟩ := List.lookup_eq_some_iff.mp hg
      obtain ⟨opcode, hm⟩ := hc.lookup_iff.mp ⟨(index, name), by simp, rfl⟩
      exact ho opcode hm
    · have hp : (clauses.foldl Clause.addTo {}).opcodes = [] := hs
      rw [hp]
      exact nofun

/-- The opcode names of grouped features are identifiers. -/
theorem Group.identified {features : List Feature} {clauses : List Clause}
    (h : Group features clauses) : ∀ clause ∈ clauses, clause.Identified := by
  intro clause hc
  cases clause with
  | opcodes names =>
    intro entry he
    obtain ⟨opcode, _, hn⟩ := (h.collects _ hc).2 entry he
    exact Opcode.isIdentifier_of_name? hn
  | _ => trivial

end Clause

/-! ### Fingerprints -/

private theorem mapM_text_eq_ok_iff {clauses : List Clause} {texts : List String} :
    clauses.mapM Clause.text = .ok texts ↔ (∀ c ∈ clauses, c.Named) ∧ (∀ c ∈ clauses, c.Fits) ∧
      clauses.map (fun clause ↦ clause.written.text) = texts := by
  simp only [mapM_eq_ok_iff, Clause.text_eq_ok_iff, List.forall₂_and_left]
  rw [← List.forall₂_map_left_iff, List.forall₂_eq_eq_eq]

/-- Features that cannot be grouped are not rendered. -/
theorem render_of_ofFeatures_eq_error {features : List Feature} {fault : RenderFault}
    (h : Clause.ofFeatures features = .error fault) : render features = .error (.fault fault) := by
  rw [render, h]
  rfl

/-- Grouped features are rendered clause by clause. -/
theorem render_of_ofFeatures_eq_ok {features : List Feature} {clauses : List Clause}
    (h : Clause.ofFeatures features = .ok clauses) : render features =
      (clauses.mapM Clause.text).map fun texts ↦
        "fingerprint \x7b\n" ++ String.join (texts.map Clause.line) ++ "\x7d" := by
  rw [render, h]
  change (clauses.mapM Clause.text).bind _ = _
  cases clauses.mapM Clause.text <;> rfl

/-- Features are rendered if they can be grouped, all flags have names and all opcodes fit. -/
theorem render_eq_ok_iff {features : List Feature} {text : String} :
    render features = .ok text ↔
      ∃ clauses, Clause.ofFeatures features = .ok clauses ∧ (∀ c ∈ clauses, c.Named) ∧
        (∀ c ∈ clauses, c.Fits) ∧ fingerprintText (clauses.map Clause.written) = text := by
  have htext (clauses : List Clause) : "fingerprint \x7b\n" ++ String.join
      ((clauses.map fun clause ↦ clause.written.text).map Clause.line) ++ "\x7d" =
        fingerprintText (clauses.map Clause.written) := by
    rw [fingerprintText, List.map_map, List.map_map]
    rfl
  cases ho : Clause.ofFeatures features with
  | error fault =>
    rw [render_of_ofFeatures_eq_error ho]
    exact ⟨nofun, nofun⟩
  | ok clauses =>
    rw [render_of_ofFeatures_eq_ok ho, map_eq_ok_iff]
    simp only [mapM_text_eq_ok_iff, Except.ok.injEq]
    constructor
    · rintro ⟨_, ⟨hn, hf, rfl⟩, rfl⟩
      exact ⟨clauses, rfl, hn, hf, (htext clauses).symm⟩
    · rintro ⟨_, rfl, hn, hf, rfl⟩
      exact ⟨_, ⟨hn, hf, rfl⟩, htext clauses⟩

/-- Features that do not keep each other from being rendered: consistent ones whose flags all have
names. -/
structure Compatible (features : List Feature) : Prop extends Consistent features where
  flagsNamed : ∀ flags, .accessFlags flags ∈ features → AccessFlag.unnamed flags = 0

/-- Some of the features, in any order and any number, are compatible if all are. -/
theorem Compatible.mono {some all : List Feature} (h : Compatible all)
    (hs : ∀ f ∈ some, f ∈ all) : Compatible some :=
  ⟨h.toConsistent.mono hs, fun flags hf ↦ h.flagsNamed flags (hs _ hf)⟩

/-- A list has room for an opcode at every position up to the last one that some features name. -/
def Fitting (features : List Feature) : Prop :=
  ∀ index opcode, .opcodeAt index opcode ∈ features → index < stringCapacity

/-- Some of the features, in any order and any number, fit if all do. -/
theorem Fitting.mono {some all : List Feature} (h : Fitting all) (hs : ∀ f ∈ some, f ∈ all) :
    Fitting some :=
  fun index opcode ho ↦ h index opcode (hs _ ho)

/-- Features that can be rendered: compatible ones that fit. -/
structure Renderable (features : List Feature) : Prop extends Compatible features where
  fits : Fitting features

/-- Some of the features, in any order and any number, can be rendered if all can. -/
theorem Renderable.mono {some all : List Feature} (h : Renderable all)
    (hs : ∀ f ∈ some, f ∈ all) : Renderable some :=
  ⟨h.toCompatible.mono hs, h.fits.mono hs⟩

namespace Clause

/-- The flags of clauses have names if the flags of the features do. -/
theorem Group.forall_named_iff {features : List Feature} {clauses : List Clause}
    (h : Group features clauses) : (∀ c ∈ clauses, c.Named) ↔
      ∀ flags, .accessFlags flags ∈ features → AccessFlag.unnamed flags = 0 := by
  constructor
  · intro hn flags hf
    obtain ⟨clause, hc, hk⟩ := List.mem_map.mp ((h.kinds .accessFlags).mpr ⟨_, hf, rfl⟩)
    cases clause <;> cases hk
    next first =>
    obtain rfl := (h.collects _ hc flags).mp hf
    exact hn _ hc
  · intro hn clause hc
    cases clause with
    | accessFlags first => exact hn first ((h.collects _ hc first).mpr rfl)
    | _ => trivial

/-- The opcodes of clauses fit if those of the features do. -/
theorem Group.forall_fits_iff {features : List Feature} {clauses : List Clause}
    (h : Group features clauses) : (∀ c ∈ clauses, c.Fits) ↔ Fitting features := by
  have h0 : 0 < stringCapacity := by decide
  constructor
  · intro hf index opcode ho
    obtain ⟨clause, hc, hk⟩ := List.mem_map.mp ((h.kinds .opcodeAt).mpr ⟨_, ho, rfl⟩)
    cases clause <;> cases hk
    next names =>
    have hl : lastPosition names < stringCapacity := hf _ hc
    obtain ⟨entry, he, rfl⟩ := (h.collects _ hc).lookup_iff.mpr ⟨opcode, ho⟩
    exact (lastPosition_lt_iff h0).mp hl entry he
  · intro hf clause hc
    cases clause with
    | opcodes names =>
      refine (lastPosition_lt_iff h0).mpr fun entry he ↦ ?_
      obtain ⟨opcode, ho⟩ := (h.collects _ hc).lookup_iff.mp ⟨entry, he, rfl⟩
      exact hf entry.1 opcode ho
    | _ => trivial

end Clause

/-- Rendering succeeds on renderable features only, and on all of them. -/
theorem exists_render_iff {features : List Feature} :
    (∃ text, render features = .ok text) ↔ Renderable features := by
  constructor
  · rintro ⟨text, h⟩
    obtain ⟨clauses, ho, hn, hf, _⟩ := render_eq_ok_iff.mp h
    have hg := Clause.group_of_ofFeatures ho
    exact ⟨⟨hg.consistent, hg.forall_named_iff.mp hn⟩, hg.forall_fits_iff.mp hf⟩
  · intro h
    obtain ⟨clauses, ho⟩ := Clause.exists_ofFeatures h.toConsistent
    have hg := Clause.group_of_ofFeatures ho
    exact ⟨_, render_eq_ok_iff.mpr ⟨clauses, ho, hg.forall_named_iff.mpr h.flagsNamed,
      hg.forall_fits_iff.mpr h.fits, rfl⟩⟩

/-- The text of some features is accepted as a predicate that states them. -/
theorem exists_accepted_of_render {features : List Feature} {text : String}
    (h : render features = .ok text) :
    ∃ predicate, Evaluator.language text = .accepted predicate ∧ predicate.States features := by
  obtain ⟨clauses, ho, hn, _, rfl⟩ := render_eq_ok_iff.mp h
  have hg := Clause.group_of_ofFeatures ho
  refine ⟨clauses.foldl Clause.addTo {}, ?_, hg.states⟩
  rw [Evaluator.language, ofSource_fingerprintText hn hg.identified hg.nodup]

/-- Rendering and reading back is exact: the text is accepted as the one predicate that states the
features. -/
theorem language_render {features : List Feature} {text : String}
    (h : render features = .ok text) :
    ∃ predicate, Evaluator.language text = .accepted predicate ∧
      ∀ other : Predicate, other.States features ↔ other = predicate := by
  obtain ⟨predicate, ha, hs⟩ := exists_accepted_of_render h
  refine ⟨predicate, ha, fun other ↦ ⟨fun ho ↦ ho.unique hs, ?_⟩⟩
  rintro rfl
  exact hs

/-- A gap, the least number and characters that need escapes are read back. -/
theorem language_render_escapes :
    let features : List Feature :=
      [.opcodeAt 1 "const/4", .literal Int64.minValue, .stringLiteral "a\"$\x07"]
    let text := "fingerprint \x7b\n    opcodes(null, Opcode.CONST_4)\n" ++
      "    literals(-9223372036854775808)\n    strings(\"a\\\"\\$\\u0007\")\n\x7d"
    render features = .ok text ∧
      ∃ predicate, Evaluator.language text = .accepted predicate ∧
        ∀ other : Predicate, other.States features ↔ other = predicate :=
  ⟨by decide, language_render (by decide)⟩

end MethodPrint
