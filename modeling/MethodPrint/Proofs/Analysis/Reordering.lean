import MethodPrint.Proofs.Analysis.Agreement

/-!
# Fingerprints and the order of a corpus

The order in which a corpus lists its methods, and whatever else it lists between them, has no
influence on fingerprints: only the twins of a method that cannot be told apart are named in corpus
order.
-/

namespace MethodPrint.Index

/-- A predicate accepts the same methods in any order. -/
theorem resolveAll_perm {index reordered : Index}
    (hp : index.methods.toList.Perm reordered.methods.toList) (predicate : Predicate) :
    (index.resolveAll predicate).Perm (reordered.resolveAll predicate) := hp.filter _

/-- Whatever the configuration, the target and the moment at which it is abandoned: members with the
same methods in any order, and with any fields and classes between them, have the same
distinguishing sets and the same analyses, or fail for the same reason, up to the order of twins. -/
theorem upToTwins_of_perm {corpusId otherId : String} {window : Nat}
    {members others : List Member} {index reordered : Index}
    (hb : build corpusId window members = .ok index)
    (hr : build otherId window others = .ok reordered)
    (hp : (members.filterMap Member.method?).Perm (others.filterMap Member.method?))
    (config : SolverConfig) (target : MethodId) (cancelled : Bool) :
    UpToTwins (index.solve config target cancelled) (reordered.solve config target cancelled) ∧
      UpToTwins (index.analyse config .language target cancelled)
        (reordered.analyse config .language target cancelled) := by
  have h := represents_of_build hb
  have ho := represents_of_build hr
  have hsolve := h.solve_of_perm ho hp config target cancelled
  have hm := h.perm_methods ho hp
  refine ⟨hsolve, analyse_upToTwins (h.features?_of_perm ho hp target) hsolve ?_⟩
  intro sets _ set _
  exact renderSet_congr fun _ predicate _ _ ↦ (resolveAll_perm hm predicate).map _

/-- A method with two twins, in a corpus and in the same corpus backwards, which lists a class as
well: the twins come in another order. -/
theorem upToTwins_of_perm_twins :
    let plain : Method := { id := ⟨"LA;->a()V"⟩, returnType := "V" }
    let texts : Method :=
      { id := ⟨"LA;->b()V"⟩, returnType := "V",
        instructions := [{ opcode := "const-string", string := some "text" }] }
    let same : Method := { id := ⟨"LA;->c()V"⟩, returnType := "V" }
    let members : List Member := [.method texts, .method plain, .method same]
    let others : List Member :=
      [.method same, .classDecl { id := "LA;" }, .method plain, .method texts]
    ∃ index reordered, build "forwards" 0 members = .ok index ∧
      build "backwards" 0 others = .ok reordered ∧
      (members.filterMap Member.method?).Perm (others.filterMap Member.method?) ∧
      (UpToTwins (index.solve {} plain.id false) (reordered.solve {} plain.id false) ∧
        UpToTwins (index.analyse {} .language plain.id false)
          (reordered.analyse {} .language plain.id false)) ∧
      index.twins plain.id (plain.features 0) = [texts.id, same.id] ∧
      reordered.twins plain.id (plain.features 0) = [same.id, texts.id] := by
  intro plain texts same members others
  obtain ⟨index, hb⟩ : ∃ index, build "forwards" 0 members = .ok index :=
    exists_build "forwards" 0 (by decide) (by decide) (by decide) (by decide)
  obtain ⟨reordered, hr⟩ : ∃ index, build "backwards" 0 others = .ok index :=
    exists_build "backwards" 0 (by decide) (by decide) (by decide) (by decide)
  have hp : (members.filterMap Member.method?).Perm (others.filterMap Member.method?) := by decide
  refine ⟨index, reordered, hb, hr, hp, upToTwins_of_perm hb hr hp {} plain.id false, ?_, ?_⟩
  · rw [twins, (represents_of_build hb).methods_eq]
    decide
  · rw [twins, (represents_of_build hr).methods_eq]
    decide

end MethodPrint.Index
