import Mathlib.Data.List.Sort
import MethodPrint.Proofs.Feature.Extraction

/-!
# The sequence of features

Extraction gives the features of a method in one order: by kind, and within a kind by the place
where the body first shows the feature. Since this order is strict no feature is given twice, and
what the method has determines the whole list.
-/

namespace MethodPrint

namespace Instruction

/-- The position of the first instruction with a value as its operand. -/
def firstUse {α : Type} [DecidableEq α] (operand : Instruction → Option α)
    (instructions : List Instruction) (value : α) : Nat :=
  instructions.findIdx (operand · == some value)

variable {α : Type} [DecidableEq α] {operand : Instruction → Option α}

/-- A value is first used before the end of any body that uses it. -/
theorem firstUse_lt_length {instructions : List Instruction} {value : α}
    (h : value ∈ instructions.filterMap operand) :
    firstUse operand instructions value < instructions.length := by
  obtain ⟨instruction, hm, ho⟩ := List.mem_filterMap.mp h
  exact List.findIdx_lt_length_of_exists ⟨instruction, hm, by rw [ho, BEq.rfl]⟩

/-- More instructions do not change where a value is first used. -/
theorem firstUse_append {before : List Instruction} {value : α}
    (h : value ∈ before.filterMap operand) (after : List Instruction) :
    firstUse operand (before ++ after) value = firstUse operand before value := by
  rw [firstUse, List.findIdx_append]
  exact if_pos (firstUse_lt_length h)

/-- A value that is new at the last instruction is first used there. -/
theorem firstUse_concat {before : List Instruction} {last : Instruction} {value : α}
    (hn : value ∉ before.filterMap operand) (ho : operand last = some value) :
    firstUse operand (before ++ [last]) value = before.length := by
  have hb : before.findIdx (operand · == some value) = before.length := by
    rw [List.findIdx_eq_length]
    intro instruction hm
    rw [beq_eq_false_iff_ne]
    exact fun he ↦ hn (List.mem_filterMap.mpr ⟨instruction, hm, he⟩)
  rw [firstUse, List.findIdx_append, hb, if_neg (Nat.lt_irrefl _), List.findIdx_singleton, ho]
  simp

/-- The distinct operands of a body stand in the order of their first use. -/
theorem pairwise_firstUse (operand : Instruction → Option α) (instructions : List Instruction) :
    (instructions.filterMap operand).eraseDups.Pairwise fun a b ↦
      firstUse operand instructions a < firstUse operand instructions b := by
  induction instructions using List.reverseRecOn with
  | nil => exact List.Pairwise.nil
  | append_singleton before last ih =>
    have hb : (before.filterMap operand).eraseDups.Pairwise fun a b ↦
        firstUse operand (before ++ [last]) a < firstUse operand (before ++ [last]) b := by
      apply ih.imp_of_mem
      intro a b ha hb hab
      rwa [firstUse_append (List.mem_eraseDups.mp ha), firstUse_append (List.mem_eraseDups.mp hb)]
    rw [List.filterMap_append]
    cases ho : operand last with
    | none =>
      rw [List.filterMap_cons_none ho, List.filterMap_nil, List.append_nil]
      exact hb
    | some value =>
      rw [List.filterMap_cons_some ho, List.filterMap_nil, eraseDups_concat]
      split
      · exact hb
      · next hn =>
        rw [List.pairwise_append]
        refine ⟨hb, List.pairwise_singleton _ _, ?_⟩
        intro a ha b hv
        obtain rfl := List.mem_singleton.mp hv
        have ha := List.mem_eraseDups.mp ha
        rw [firstUse_append ha, firstUse_concat hn ho]
        exact firstUse_lt_length ha

end Instruction

namespace Feature

/-- Where the body of a method first shows a feature: an operand at its first use, an opcode at its
position. The features of the signature have no place of their own. -/
def place (method : Method) : Feature → Nat
  | .accessFlags _ => 0
  | .returnType _ => 0
  | .parameters _ => 0
  | .stringLiteral value => Instruction.firstUse (·.string) method.instructions value
  | .invokedMethod signature => Instruction.firstUse (·.method) method.instructions signature
  | .literal value => Instruction.firstUse (·.literal) method.instructions value
  | .opcodeAt index _ => index

/-- A feature stands before another one: it is of an earlier kind, or of the same kind and the body
shows it earlier. -/
def Precedes (method : Method) (a b : Feature) : Prop :=
  a.kind.rank < b.kind.rank ∨ a.kind = b.kind ∧ a.place method < b.place method

/-- No two features stand before each other. -/
theorem Precedes.asymm {method : Method} {a b : Feature} (h : a.Precedes method b) :
    ¬b.Precedes method a := by
  rintro (hr | ⟨hk, hp⟩)
  · rcases h with hr' | ⟨hk', _⟩
    · omega
    · rw [hk'] at hr
      omega
  · rcases h with hr' | ⟨_, hp'⟩
    · rw [hk] at hr'
      omega
    · omega

instance (method : Method) : Std.Asymm (Precedes method) := ⟨fun _ _ ↦ Precedes.asymm⟩

end Feature

namespace Method

/-! ### Blocks of features -/

private theorem pairwise_append_of_rank {method : Method} {a b : List Feature}
    (ha : a.Pairwise (Feature.Precedes method)) (hb : b.Pairwise (Feature.Precedes method))
    (hk : ∀ f ∈ a, ∀ g ∈ b, f.kind.rank < g.kind.rank) :
    (a ++ b).Pairwise (Feature.Precedes method) :=
  List.pairwise_append.mpr ⟨ha, hb, fun f hf g hg ↦ .inl (hk f hf g hg)⟩

private theorem pairwise_map_of_place {α : Type} {method : Method} {values : List α}
    {make : α → Feature} (hk : ∀ a b, (make a).kind = (make b).kind)
    (h : values.Pairwise fun a b ↦ (make a).place method < (make b).place method) :
    (values.map make).Pairwise (Feature.Precedes method) :=
  List.pairwise_map.mpr (h.imp fun hp ↦ .inr ⟨hk _ _, hp⟩)

private theorem pairwise_operandFeatures (method : Method) :
    method.operandFeatures.Pairwise (Feature.Precedes method) := by
  have hs : ((method.instructions.filterMap (·.string)).eraseDups.map
      Feature.stringLiteral).Pairwise (Feature.Precedes method) :=
    pairwise_map_of_place (fun _ _ ↦ rfl) (Instruction.pairwise_firstUse _ _)
  have hi : ((method.instructions.filterMap (·.method)).eraseDups.map
      Feature.invokedMethod).Pairwise (Feature.Precedes method) :=
    pairwise_map_of_place (fun _ _ ↦ rfl) (Instruction.pairwise_firstUse _ _)
  have hl : ((method.instructions.filterMap (·.literal)).eraseDups.map
      Feature.literal).Pairwise (Feature.Precedes method) :=
    pairwise_map_of_place (fun _ _ ↦ rfl) (Instruction.pairwise_firstUse _ _)
  apply pairwise_append_of_rank (pairwise_append_of_rank hs hi _) hl _
  · simp only [List.forall_mem_map, Feature.kind, FeatureKind.rank, Nat.reduceLT, implies_true]
  · simp only [List.forall_mem_append, List.forall_mem_map, Feature.kind, FeatureKind.rank,
      Nat.reduceLT, implies_true, and_self]

private theorem pairwise_opcodeFeatures (window : Nat) (method : Method) :
    (method.opcodeFeatures window).Pairwise (Feature.Precedes method) := by
  rw [opcodeFeatures]
  refine pairwise_map_of_place (fun _ _ ↦ rfl) ?_
  apply List.pairwise_map.mp
  change ((method.instructions.take window).zipIdx.map Prod.snd).Pairwise (· < ·)
  rw [List.zipIdx_map_snd]
  exact List.pairwise_lt_range'

/-- The features of a method stand in their order. -/
theorem pairwise_features (window : Nat) (method : Method) :
    (method.features window).Pairwise (Feature.Precedes method) := by
  have hs : method.signatureFeatures.Pairwise (Feature.Precedes method) := by
    simp [signatureFeatures, Feature.Precedes, Feature.kind, FeatureKind.rank]
  apply pairwise_append_of_rank (pairwise_append_of_rank hs (pairwise_operandFeatures method) _)
    (pairwise_opcodeFeatures window method) _
  · simp only [signatureFeatures, operandFeatures, List.forall_mem_append, List.forall_mem_map,
      List.forall_mem_cons, List.not_mem_nil, IsEmpty.forall_iff, Feature.kind, FeatureKind.rank,
      Nat.reduceLT, implies_true, and_self]
  · simp only [signatureFeatures, operandFeatures, opcodeFeatures, List.forall_mem_append,
      List.forall_mem_map, List.forall_mem_cons, List.not_mem_nil, IsEmpty.forall_iff,
      Feature.kind, FeatureKind.rank, Nat.reduceLT, implies_true, and_self]

/-- No feature is extracted twice. -/
theorem nodup_features (window : Nat) (method : Method) : (method.features window).Nodup := by
  apply (method.pairwise_features window).imp
  rintro a _ h rfl
  exact h.asymm h

/-! ### Extracted features -/

/-- What extraction gives: the features of the signature first, then those of the body by kind, each
once, at the place where the body first shows it. -/
structure Extracted (window : Nat) (method : Method) (features : List Feature) : Prop where
  signature : ∃ body, features =
      .accessFlags (method.accessFlags &&& AccessFlag.known) :: .returnType method.returnType ::
        .parameters method.parameters :: body ∧
    ∀ f ∈ body, f.kind ≠ .accessFlags ∧ f.kind ≠ .returnType ∧ f.kind ≠ .parameters
  kinds : features.Pairwise fun a b ↦ a.kind.rank ≤ b.kind.rank
  nodup : features.Nodup
  stringLiteral_iff : ∀ value, .stringLiteral value ∈ features ↔
    ∃ instruction ∈ method.instructions, instruction.string = some value
  invokedMethod_iff : ∀ signature, .invokedMethod signature ∈ features ↔
    ∃ instruction ∈ method.instructions, instruction.method = some signature
  literal_iff : ∀ value, .literal value ∈ features ↔
    ∃ instruction ∈ method.instructions, instruction.literal = some value
  opcodeAt_iff : ∀ index opcode, .opcodeAt index opcode ∈ features ↔
    index < window ∧ ∃ instruction, method.instructions[index]? = some instruction ∧
      instruction.opcode = opcode
  placed : features.Pairwise fun a b ↦ a.kind = b.kind → a.place method < b.place method

/-- The features of a method are what extraction should give. -/
theorem extracted_features (window : Nat) (method : Method) :
    method.Extracted window (method.features window) where
  signature := by
    refine ⟨method.operandFeatures ++ method.opcodeFeatures window, rfl, ?_⟩
    simp only [operandFeatures, opcodeFeatures, List.forall_mem_append, List.forall_mem_map,
      Feature.kind, ne_eq, reduceCtorEq, not_false_eq_true, implies_true, and_self]
  kinds := by
    apply (method.pairwise_features window).imp
    rintro a b (hr | ⟨hk, _⟩)
    · exact Nat.le_of_lt hr
    · exact Nat.le_of_eq (congrArg FeatureKind.rank hk)
  nodup := method.nodup_features window
  stringLiteral_iff _ := mem_features_iff_metBy nofun
  invokedMethod_iff _ := mem_features_iff_metBy nofun
  literal_iff _ := mem_features_iff_metBy nofun
  opcodeAt_iff _ _ := opcodeAt_mem_features
  placed := by
    apply (method.pairwise_features window).imp
    rintro a b (hr | ⟨_, hp⟩) hk
    · rw [hk] at hr
      exact absurd hr (Nat.lt_irrefl _)
    · exact hp

namespace Extracted

variable {window : Nat} {method : Method} {features others : List Feature}

private theorem mem_iff_of_kind (h : method.Extracted window features) {feature : Feature}
    (hk : feature.kind = .accessFlags ∨ feature.kind = .returnType ∨ feature.kind = .parameters) :
    feature ∈ features ↔ feature ∈ method.signatureFeatures := by
  obtain ⟨body, rfl, hb⟩ := h.signature
  change feature ∈ method.signatureFeatures ++ body ↔ _
  rw [List.mem_append, or_iff_left]
  intro hm
  obtain ⟨ha, hr, hp⟩ := hb feature hm
  exact hk.elim ha (·.elim hr hp)

/-- What should be extracted is said feature by feature. -/
theorem mem_iff (h : method.Extracted window features) (ho : method.Extracted window others)
    (feature : Feature) : feature ∈ features ↔ feature ∈ others := by
  cases feature with
  | stringLiteral value => rw [h.stringLiteral_iff, ho.stringLiteral_iff]
  | invokedMethod signature => rw [h.invokedMethod_iff, ho.invokedMethod_iff]
  | literal value => rw [h.literal_iff, ho.literal_iff]
  | opcodeAt index opcode => rw [h.opcodeAt_iff, ho.opcodeAt_iff]
  | _ =>
    have hk : ∀ {f : Feature}, f.kind = .accessFlags ∨ f.kind = .returnType ∨
        f.kind = .parameters → (f ∈ features ↔ f ∈ others) :=
      fun hk ↦ (h.mem_iff_of_kind hk).trans (ho.mem_iff_of_kind hk).symm
    exact hk (by simp [Feature.kind])

/-- What should be extracted stands in the order of features. -/
theorem pairwise (h : method.Extracted window features) :
    features.Pairwise (Feature.Precedes method) := by
  refine List.Pairwise.imp₂ (fun a b hr hp ↦ ?_) h.kinds h.placed
  rcases Nat.lt_or_eq_of_le hr with hlt | he
  · exact .inl hlt
  · have hk := FeatureKind.rank_inj.mp he
    exact .inr ⟨hk, hp hk⟩

/-- There is one list only that should be extracted. -/
theorem unique (h : method.Extracted window features) (ho : method.Extracted window others) :
    features = others := List.Pairwise.eq_of_mem_iff h.pairwise ho.pairwise (h.mem_iff ho)

end Extracted

/-- Whatever the method and the window: if extraction gives features, they are exactly those of the
method, in their order and each once, and no other list is. -/
theorem extracted_of_extract {window : Nat} {method : Method} {features : List Feature}
    (h : method.extract window = .ok features) :
    method.Extracted window features ∧
      ∀ others, method.Extracted window others → others = features := by
  obtain ⟨_, rfl⟩ := extract_eq_ok_iff.mp h
  have hf := method.extracted_features window
  exact ⟨hf, fun _ ho ↦ ho.unique hf⟩

/-- A string that is used twice, a flag without a name and instructions beyond the window. -/
theorem extracted_of_extract_repeated :
    let method : Method :=
      { id := ⟨"LA;->a(I)V"⟩, accessFlags := 0x40001, returnType := "V", parameters := ["I"],
        instructions := [.constString "b", .withLiteral "const/4" 7, .constString "a",
          .constString "b"] }
    let features : List Feature :=
      [.accessFlags 0x1, .returnType "V", .parameters ["I"], .stringLiteral "b",
        .stringLiteral "a", .literal 7, .opcodeAt 0 "const-string", .opcodeAt 1 "const/4"]
    method.extract 2 = .ok features ∧ method.Extracted 2 features ∧
      ∀ others, method.Extracted 2 others → others = features := by
  intro method features
  have hx : method.extract 2 = .ok features := by decide
  exact ⟨hx, extracted_of_extract hx⟩

end Method

end MethodPrint
