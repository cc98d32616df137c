import MethodPrint.Proofs.Predicate.Meaning

/-!
# Fingerprints of joined features

Joining two lists of features joins what their fingerprints demand: the fingerprint of all of them
accepts exactly the methods that both fingerprints accept. Which methods a fingerprint accepts is
settled by which features it states, and not by their order or number.
-/

namespace MethodPrint

namespace Predicate

/-- The text of some features is accepted as a predicate. -/
def ReadFrom (features : List Feature) (predicate : Predicate) : Prop :=
  ∃ text, render features = .ok text ∧ Evaluator.language text = .accepted predicate

namespace ReadFrom

variable {features others : List Feature} {p q both : Predicate}

/-- A predicate that is read from features accepts the methods that meet all of them. -/
theorem accepts_iff (h : p.ReadFrom features) {method : Method} :
    p.accepts method = true ↔ ∀ f ∈ features, f.MetBy method := by
  obtain ⟨text, ht, ha⟩ := h
  obtain ⟨stating, hs, hstates⟩ := exists_accepted_of_render ht
  rw [ha] at hs
  cases hs
  exact hstates.accepts_iff

/-- More features are met by no more methods. -/
theorem accepts_of_subset (hp : p.ReadFrom features) (hq : q.ReadFrom others)
    (hs : features ⊆ others) {method : Method} (h : q.accepts method = true) :
    p.accepts method = true := by
  apply hp.accepts_iff.mpr
  intro f hf
  exact hq.accepts_iff.mp h f (hs hf)

/-- The same features in another order and number are met by the same methods. -/
theorem accepts_congr (hp : p.ReadFrom features) (hq : q.ReadFrom others)
    (hs : ∀ f, f ∈ features ↔ f ∈ others) (method : Method) :
    p.accepts method = q.accepts method := by
  rw [Bool.eq_iff_iff, hp.accepts_iff, hq.accepts_iff]
  simp only [hs]

/-- The features of two lists are met by the methods that meet those of each. -/
theorem accepts_append_iff (hp : p.ReadFrom features) (hq : q.ReadFrom others)
    (hb : both.ReadFrom (features ++ others)) (method : Method) :
    both.accepts method = true ↔ p.accepts method = true ∧ q.accepts method = true := by
  rw [hb.accepts_iff, hp.accepts_iff, hq.accepts_iff]
  simp only [List.mem_append, or_imp, forall_and]

end ReadFrom

end Predicate

/-- Renderable features are rendered and read back. -/
theorem Renderable.exists_readFrom {features : List Feature} (h : Renderable features) :
    ∃ p : Predicate, p.ReadFrom features := by
  obtain ⟨text, ht⟩ := exists_render_iff.mpr h
  obtain ⟨p, ha, _⟩ := exists_accepted_of_render ht
  exact ⟨p, text, ht, ha⟩

/-- A predicate demands what two lists of features demand, beside each other and in any order. -/
structure Predicate.Conjoins (features others : List Feature) (both : Predicate) : Prop where
  parts : ∃ p q : Predicate, p.ReadFrom features ∧ q.ReadFrom others ∧
    ∀ method, both.accepts method = true ↔ p.accepts method = true ∧ q.accepts method = true
  /-- What is demanded by some of the features only is met by no fewer methods. -/
  fewer : ∀ listed, listed ⊆ features ++ others → ∃ p : Predicate, p.ReadFrom listed ∧
    ∀ method, both.accepts method = true → p.accepts method = true
  unordered : ∀ listed, (∀ f, f ∈ listed ↔ f ∈ features ++ others) →
    ∃ p : Predicate, p.ReadFrom listed ∧ ∀ method, p.accepts method = both.accepts method

/-- Whatever the features: if those of two lists can be rendered together, they can be rendered
apart, and the fingerprint of all accepts what both fingerprints accept. -/
theorem conjoins_of_render_append {features others : List Feature} {text : String}
    (h : render (features ++ others) = .ok text) :
    ∃ both, Evaluator.language text = .accepted both ∧ both.Conjoins features others := by
  have hr : Renderable (features ++ others) := exists_render_iff.mp ⟨text, h⟩
  obtain ⟨both, ha, _⟩ := exists_accepted_of_render h
  have hb : both.ReadFrom (features ++ others) := ⟨text, h, ha⟩
  refine ⟨both, ha, ?_, ?_, ?_⟩
  · obtain ⟨p, hp⟩ := (hr.mono fun _ ↦ List.mem_append_left _).exists_readFrom
    obtain ⟨q, hq⟩ := (hr.mono fun _ ↦ List.mem_append_right _).exists_readFrom
    exact ⟨p, q, hp, hq, hp.accepts_append_iff hq hb⟩
  · intro listed hs
    obtain ⟨p, hp⟩ := (hr.mono fun _ hf ↦ hs hf).exists_readFrom
    exact ⟨p, hp, fun _ ↦ hp.accepts_of_subset hb hs⟩
  · intro listed hs
    obtain ⟨p, hp⟩ := (hr.mono fun f hf ↦ (hs f).mp hf).exists_readFrom
    exact ⟨p, hp, hp.accepts_congr hb hs⟩

/-- Two patterns of opcodes fill each other's gaps, and what both lists demand is demanded once. -/
theorem conjoins_of_render_append_gaps :
    let features : List Feature := [.opcodeAt 2 "nop", .literal 7]
    let others : List Feature := [.literal 7, .opcodeAt 0 "const/4"]
    let text := "fingerprint \x7b\n    opcodes(Opcode.CONST_4, null, Opcode.NOP)\n" ++
      "    literals(7)\n\x7d"
    render (features ++ others) = .ok text ∧
      ∃ both, Evaluator.language text = .accepted both ∧ both.Conjoins features others :=
  ⟨by decide, conjoins_of_render_append (by decide)⟩

end MethodPrint
