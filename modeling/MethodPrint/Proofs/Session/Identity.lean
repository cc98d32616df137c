import MethodPrint.Proofs.Analysis.Features
import MethodPrint.Proofs.Session.Run

/-!
# The identity of snapshots

A report depends on its snapshot by the identifiers and features of the methods alone. Snapshots
that agree in these give the same reports, whatever else is different in the corpora they were
loaded from and in the windows they were loaded with.
-/

namespace MethodPrint

namespace Session

/-- A load that succeeds publishes an index that it has built, with its digest. -/
theorem exists_build_of_load {session : Session} {corpusId : String}
    {members : Except FingerprintError (List Member)} {snapshot : Snapshot}
    (h : (session.load corpusId members).2 = .ok snapshot) :
    ∃ list index, Index.build corpusId session.settings.window list = .ok index ∧
      snapshot = ⟨session.loads + 1, index.digest, index⟩ := by
  cases hb : session.buildIndex corpusId members with
  | error error =>
    rw [load_fst_of_error hb] at h
    cases h
  | ok index =>
    rw [load_of_ok hb, Except.ok.injEq] at h
    cases members with
    | error error => cases hb
    | ok list => exact ⟨list, index, hb, h.symm⟩

/-- Whatever the corpora, the windows, the solver's configuration, the method and the moment at
which the request is abandoned: loaded snapshots with the same identifiers and features give the
same error, or reports that differ in nothing but the corpus and the generation that they name. -/
theorem report_of_entries {session other : Session} {corpusId otherId : String}
    {members others : Except FingerprintError (List Member)} {a b : Snapshot}
    (ha : (session.load corpusId members).2 = .ok a) (hb : (other.load otherId others).2 = .ok b)
    (he : a.index.entries = b.index.entries) (window otherWindow : Nat) (solver : SolverConfig)
    (method : MethodId) (cancelled : Bool) :
    b.report { window := otherWindow, solver } .language method cancelled =
      (a.report { window, solver } .language method cancelled).map fun report ↦
        { report with corpusId := b.corpusId, generation := b.generation } := by
  obtain ⟨list, index, hi, rfl⟩ := exists_build_of_load ha
  obtain ⟨otherList, otherIndex, ho, rfl⟩ := exists_build_of_load hb
  have hanalyse := (Index.represents_of_build hi).analyse_of_entries
    (Index.represents_of_build ho) he solver method cancelled
  have hdigest : index.digest = otherIndex.digest := by
    rw [Index.digest, Index.digest, he]
  rw [Snapshot.report, Snapshot.report]
  simp only [hanalyse, hdigest]
  cases otherIndex.analyse solver .language method cancelled with
  | error error => rfl
  | ok analysis => rfl

/-- Snapshots of two corpora whose methods differ in an unnamed access flag, in the repetition of a
string and in an instruction beyond the window of the second one. -/
theorem report_of_entries_window :
    let text : Instruction := { opcode := "const-string", string := some "text" }
    let first : Method :=
      { id := ⟨"LA;->a()V"⟩, accessFlags := 0x1, returnType := "V", instructions := [text] }
    let again : Method :=
      { id := ⟨"LA;->a()V"⟩, accessFlags := 0x80001, returnType := "V",
        instructions := [text, text] }
    let number : Method := { id := ⟨"LA;->b()I"⟩, returnType := "I" }
    let session : Session := { settings := { window := 5 } }
    let other : Session := { settings := { window := 1 }, loads := 3 }
    let members : List Member := [.method first, .method number]
    let others : List Member := [.method again, .classDecl { id := "LA;" }, .method number]
    ∃ a b, (session.load "first" (.ok members)).2 = .ok a ∧
      (other.load "again" (.ok others)).2 = .ok b ∧ a.index.entries = b.index.entries ∧
      b.report other.settings .language first.id false =
        (a.report session.settings .language first.id false).map fun report ↦
          { report with corpusId := b.corpusId, generation := b.generation } := by
  intro text first again number session other members others
  obtain ⟨index, hi⟩ : ∃ index, Index.build "first" 5 members = .ok index :=
    Index.exists_build "first" 5 (by decide) (by decide) (by decide) (by decide)
  obtain ⟨otherIndex, ho⟩ : ∃ index, Index.build "again" 1 others = .ok index :=
    Index.exists_build "again" 1 (by decide) (by decide) (by decide) (by decide)
  have ha : (session.load "first" (.ok members)).2 = .ok ⟨1, index.digest, index⟩ := by
    rw [load_of_ok (show session.buildIndex "first" (.ok members) = .ok index from hi)]
  have hb : (other.load "again" (.ok others)).2 = .ok ⟨4, otherIndex.digest, otherIndex⟩ := by
    rw [load_of_ok (show other.buildIndex "again" (.ok others) = .ok otherIndex from ho)]
  have he : index.entries = otherIndex.entries := by
    rw [Index.entries, Index.entries, (Index.represents_of_build hi).methods_eq,
      (Index.represents_of_build ho).methods_eq]
    decide
  exact ⟨_, _, ha, hb, he, report_of_entries ha hb he 5 1 {} first.id false⟩

end Session

end MethodPrint
