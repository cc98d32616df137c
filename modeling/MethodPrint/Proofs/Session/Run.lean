import MethodPrint.Proofs.Analysis.Return
import MethodPrint.Session.Desk

/-!
# Runs of a session

Loads that succeed and unloads are all that changes a session. Along every run its active snapshot,
if there is one, has an index that was built from some members, and so every fingerprint of a
report leads to its method alone while the snapshot of the report is active.
-/

namespace MethodPrint

/-- A report has the fingerprints of an analysis. -/
theorem Snapshot.exists_analyse_of_report {snapshot : Snapshot} {settings : Settings}
    {evaluator : Evaluator} {method : MethodId} {cancelled : Bool} {report : Report}
    (h : snapshot.report settings evaluator method cancelled = .ok report) :
    ∃ analysis, snapshot.index.analyse settings.solver evaluator method cancelled = .ok analysis ∧
      report = { method, corpusId := snapshot.corpusId, corpusDigest := snapshot.digest,
                 generation := snapshot.generation, fullFeatureCount := analysis.fullFeatureCount,
                 fullFingerprint := analysis.fullFingerprint,
                 fingerprints := analysis.fingerprints } := by
  rw [Snapshot.report] at h
  cases ha : snapshot.index.analyse settings.solver evaluator method cancelled with
  | error error =>
    rw [ha] at h
    cases h
  | ok analysis =>
    rw [ha] at h
    cases h
    exact ⟨analysis, rfl, rfl⟩

namespace Session

/-- Reports are made from the active snapshot. -/
theorem generate_of_current {session : Session} {active : Snapshot}
    (h : session.current = some active) (method : MethodId) :
    session.generate method = active.report session.settings session.evaluator method false := by
  rw [generate, snapshot, h]
  rfl

/-- Source texts are resolved in the active snapshot. -/
theorem resolve_of_current {session : Session} {active : Snapshot}
    (h : session.current = some active) (source : String) :
    session.resolve source = active.index.resolveSource session.evaluator source := by
  rw [resolve, snapshot, h]
  rfl

/-- A load leaves a session as it is, or publishes an index that it has built. -/
theorem load_cases (session : Session) (corpusId : String)
    (members : Except FingerprintError (List Member)) :
    (session.load corpusId members).1 = session ∨
      ∃ list index, members = .ok list ∧
        Index.build corpusId session.settings.window list = .ok index ∧
        (session.load corpusId members).1 = (session.publish index).1 := by
  cases hb : session.buildIndex corpusId members with
  | error error => exact .inl (by rw [load_fst_of_error hb])
  | ok index =>
    rw [load_of_ok hb]
    cases members with
    | error error => cases hb
    | ok list => exact .inr ⟨list, index, rfl, hb, rfl⟩

/-- A session with some settings that reads the predicate language, and whose active snapshot has
an index that was built from some members. -/
structure Sound (settings : Settings) (session : Session) : Prop where
  settings_eq : session.settings = settings
  evaluator_eq : session.evaluator = .language
  represents : ∀ snapshot, session.current = some snapshot →
    ∃ members, snapshot.index.Represents settings.window members

variable {settings : Settings} {session : Session}

/-- A new session is sound. -/
theorem sound_new (settings : Settings) : Sound settings { settings } := ⟨rfl, rfl, nofun⟩

/-- Loading keeps a session sound, whether or not it succeeds. -/
theorem Sound.load (h : session.Sound settings) (corpusId : String)
    (members : Except FingerprintError (List Member)) :
    (session.load corpusId members).1.Sound settings := by
  rcases session.load_cases corpusId members with hl | ⟨list, index, _, hb, hl⟩
  · rw [hl]
    exact h
  · rw [hl]
    refine ⟨h.settings_eq, h.evaluator_eq, fun snapshot hs ↦ ⟨list, ?_⟩⟩
    cases hs
    rw [← h.settings_eq]
    exact Index.represents_of_build hb

/-- Unloading keeps a session sound. -/
theorem Sound.unload (h : session.Sound settings) : session.unload.Sound settings :=
  ⟨h.settings_eq, h.evaluator_eq, nofun⟩

/-- The fingerprints of a report lead to its method alone, in every session in which the snapshot
is active that was active when the report was made. -/
theorem Sound.resolve_eq_ok (h : session.Sound settings) {method : MethodId} {report : Report}
    (hg : session.generate method = .ok report) {later : Session}
    (hl : later.Sound settings) (hsame : later.current = session.current) :
    report.method = method ∧ report.fingerprints ≠ [] ∧
      ∀ text ∈ report.fullFingerprint :: report.fingerprints.map (·.fingerprint),
        later.resolve text = .ok { method := report.method, additional := [] } := by
  cases hc : session.current with
  | none =>
    rw [generate, snapshot, hc] at hg
    cases hg
  | some active =>
    obtain ⟨members, hr⟩ := h.represents active hc
    rw [generate_of_current hc, h.evaluator_eq] at hg
    obtain ⟨analysis, ha, rfl⟩ := Snapshot.exists_analyse_of_report hg
    obtain ⟨hne, hall⟩ := hr.resolveSource_of_analyse ha
    refine ⟨rfl, hne, fun text ht ↦ ?_⟩
    rw [resolve_of_current (hsame.trans hc), hl.evaluator_eq]
    exact hall text ht

end Session

namespace Desk

/-- Some requests lead from a desk to another one. -/
def Reaches (desk later : Desk) : Prop := ∃ requests, (desk.run requests).1 = later

/-- A request loads a corpus, unloads the active one, or leaves the session as it is. -/
theorem step_session (desk : Desk) (request : Request) :
    (desk.step request).1.session = desk.session ∨
      (desk.step request).1.session = desk.session.unload ∨
      ∃ corpusId members,
        (desk.step request).1.session = (desk.session.load corpusId members).1 := by
  cases request with
  | load corpusId members => exact .inr (.inr ⟨corpusId, members, rfl⟩)
  | loadText text =>
    rw [step]
    split
    · exact .inr (.inr ⟨_, _, rfl⟩)
    · exact .inl rfl
  | unload => exact .inr (.inl rfl)
  | hold name | held name | spawn name job | cancel name | wait name =>
    left
    rw [step]
    split <;> rfl
  | settings | snapshot | isCurrent generation | generate method | resolve source => exact .inl rfl

variable {settings : Settings} {desk later : Desk}

/-- A request keeps the session of a desk sound. -/
theorem sound_step (h : desk.session.Sound settings) (request : Request) :
    (desk.step request).1.session.Sound settings := by
  rcases desk.step_session request with hs | hs | ⟨corpusId, members, hs⟩
  · rw [hs]
    exact h
  · rw [hs]
    exact h.unload
  · rw [hs]
    exact h.load corpusId members

/-- Requests one by one keep the session of a desk sound. -/
theorem Reaches.sound (hr : desk.Reaches later) (h : desk.session.Sound settings) :
    later.session.Sound settings := by
  obtain ⟨requests, rfl⟩ := hr
  induction requests generalizing desk with
  | nil => exact h
  | cons request requests ih => exact ih (sound_step h request)

/-- Whatever was asked of a session before and since: the fingerprints of a report lead to its
method alone while the snapshot is active that the report was made from. -/
theorem resolve_of_generate (hd : Reaches { session := { settings } } desk)
    (hl : desk.Reaches later) (hsame : later.session.current = desk.session.current)
    {method : MethodId} {report : Report} (hg : desk.session.generate method = .ok report) :
    report.method = method ∧ report.fingerprints ≠ [] ∧
      ∀ text ∈ report.fullFingerprint :: report.fingerprints.map (·.fingerprint),
        later.session.resolve text = .ok { method := report.method, additional := [] } := by
  have h := hd.sound (Session.sound_new settings)
  exact h.resolve_eq_ok hg (hl.sound h) hsame

/-- The report on one of two methods that differ in an access flag, before and after a load that
fails because its corpus has no methods. -/
theorem resolve_of_generate_flags :
    let settings : Settings := { window := 0 }
    let publicMethod : Method := { id := ⟨"LA;->a()V"⟩, accessFlags := 0x1, returnType := "V" }
    let privateMethod : Method := { id := ⟨"LA;->b()V"⟩, accessFlags := 0x2, returnType := "V" }
    ∃ (desk later : Desk) (report : Report),
      (run { session := { settings } }
        [.load "flags" (.ok [.method publicMethod, .method privateMethod])]).1 = desk ∧
      (desk.run [.load "empty" (.ok [])]).1 = later ∧
      later.session.current = desk.session.current ∧
      desk.session.generate publicMethod.id = .ok report ∧
      report.method = publicMethod.id ∧ report.fingerprints ≠ [] ∧
      ∀ text ∈ report.fullFingerprint :: report.fingerprints.map (·.fingerprint),
        later.session.resolve text = .ok { method := report.method, additional := [] } := by
  intro settings publicMethod privateMethod
  let members : List Member := [.method publicMethod, .method privateMethod]
  obtain ⟨index, hb⟩ : ∃ index, Index.build "flags" 0 members = .ok index :=
    Index.exists_build "flags" 0 (by decide) (by decide) (by decide) (by decide)
  have h := Index.represents_of_build hb
  have he : index.method? 0 = some (.ofMethod 0 publicMethod) := h.method?_eq 0
  have ha : index.ambiguity (IndexedMethod.ofMethod 0 publicMethod).features = #[0] := by
    rw [h.ambiguity_eq (by nofun)]
    decide
  have hopcode : ∀ place opcode,
      .opcodeAt place opcode ∉ (IndexedMethod.ofMethod 0 publicMethod).features :=
    fun _ _ hm ↦ Nat.not_lt_zero _ (Method.opcodeAt_mem_features.mp hm).1
  obtain ⟨analysis, hok⟩ := h.exists_analyse_of_not_hasHomonym he
    (fun ⟨place, opcode, hm, _⟩ ↦ hopcode place opcode hm)
    (fun ⟨_, _, _, place, opcode, _, _, hm, _⟩ ↦ hopcode place opcode hm) ha {}
  let desk : Desk := { session := (Session.publish { settings } index).1 }
  have hload : Session.load { settings } "flags" (.ok members) = _ := Session.load_of_ok hb
  have hd : (run { session := { settings } } [.load "flags" (.ok members)]).1 = desk := by
    rw [run, step, Desk.load, hload]
    rfl
  have hl : (desk.run [.load "empty" (.ok [])]).1 = desk := rfl
  obtain ⟨report, hg⟩ : ∃ report, desk.session.generate publicMethod.id = .ok report := by
    rw [Session.generate_of_current rfl, Snapshot.report]
    exact ⟨_, congrArg (Except.map _) hok⟩
  exact ⟨desk, desk, report, hd, hl, rfl, hg, resolve_of_generate ⟨_, hd⟩ ⟨_, hl⟩ rfl hg⟩

end Desk

end MethodPrint
