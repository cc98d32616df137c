import MethodPrint.Proofs.Session.Run
import MethodPrint.Proofs.Session.Tasks
import MethodPrint.Proofs.Traversal

/-!
# What a session remembers

The history of a session is its requests with the replies. Along every run the active snapshot is
the one that the last load to succeed has published, unless an unloading came after it. Snapshots
take their generations in the order in which they are published, so a generation stands for one
snapshot, and a report of the active generation is the report that the session would make again.
-/

namespace MethodPrint

/-- A report names the method that it was asked for and the generation of its snapshot. -/
theorem Snapshot.eq_of_report {snapshot : Snapshot} {settings : Settings} {evaluator : Evaluator}
    {method : MethodId} {cancelled : Bool} {report : Report}
    (h : snapshot.report settings evaluator method cancelled = .ok report) :
    report.method = method ∧ report.generation = snapshot.generation := by
  obtain ⟨analysis, _, rfl⟩ := exists_analyse_of_report h
  exact ⟨rfl, rfl⟩

/-- Only a task that was not cancelled and is to make a report delivers one. -/
theorem Task.report_of_wait {task : Task} {report : Report}
    (h : task.wait = .ok (.report report)) :
    ∃ method, task.snapshot.report task.settings task.evaluator method false = .ok report := by
  rw [wait] at h
  split at h
  · cases h
  · cases hj : task.job with
    | fingerprint method =>
      rw [hj, Job.run] at h
      obtain ⟨made, hm, he⟩ := map_eq_ok_iff.mp h
      cases he
      exact ⟨method, hm⟩
    | resolve source =>
      rw [hj, Job.run] at h
      obtain ⟨resolution, _, he⟩ := map_eq_ok_iff.mp h
      cases he

namespace Session

/-- Reports are made only from an active snapshot. -/
theorem exists_of_generate {session : Session} {method : MethodId} {report : Report}
    (h : session.generate method = .ok report) :
    ∃ active, session.current = some active ∧
      active.report session.settings session.evaluator method false = .ok report := by
  cases hc : session.current with
  | none =>
    rw [generate, snapshot, hc] at h
    cases h
  | some active =>
    rw [generate_of_current hc] at h
    exact ⟨active, rfl, h⟩

/-- A generation is current if the active snapshot has it. -/
theorem isCurrent_iff {session : Session} {generation : Nat} :
    session.isCurrent generation = true ↔
      ∃ snapshot, session.current = some snapshot ∧ snapshot.generation = generation := by
  rw [Session.isCurrent]
  cases session.current <;> simp

end Session

namespace Desk

/-! ### Histories -/

/-- Requests with their replies, the oldest first. -/
abbrev History := List (Request × Reply)

/-- The requests to a desk with its replies. -/
def history (desk : Desk) (requests : List Request) : History :=
  requests.zip (desk.run requests).2

/-- The active snapshot that a request leaves, if it is one that decides this: a load that succeeds
or an unloading. -/
def effect? : Request × Reply → Option (Option Snapshot)
  | (.load _ _, .snapshot snapshot) => some (some snapshot)
  | (.loadText _, .snapshot snapshot) => some (some snapshot)
  | (.unload, _) => some none
  | _ => none

/-- The snapshots that the loads of a history have published, the oldest first. -/
def published (history : History) : List Snapshot :=
  history.filterMap fun entry ↦ (effect? entry).join

/-- The snapshot that the last load to succeed has published, if no unloading came after it. -/
def active (history : History) : Option Snapshot := (history.reverse.findSome? effect?).join

private theorem published_concat (history : History) (entry : Request × Reply) :
    published (history ++ [entry]) = published history ++ (effect? entry).join.toList := by
  rw [published, List.filterMap_append, ← published]
  cases h : (effect? entry).join <;> simp [h]

private theorem active_concat (history : History) (entry : Request × Reply) :
    active (history ++ [entry]) =
      match effect? entry with
      | some snapshot => snapshot
      | none => active history := by
  rw [active, List.reverse_concat, List.findSome?_cons]
  cases effect? entry <;> rfl

private theorem mem_published_of_active {history : History} {snapshot : Snapshot}
    (h : active history = some snapshot) : snapshot ∈ published history := by
  obtain ⟨entry, hm, he⟩ := List.exists_of_findSome?_eq_some (Option.join_eq_some_iff.mp h)
  apply List.mem_filterMap.mpr
  exact ⟨entry, List.mem_reverse.mp hm, by rw [he]; rfl⟩

/-! ### One request -/

private theorem load_cases (desk : Desk) (corpusId : String)
    (members : Except FingerprintError (List Member)) :
    (∃ error, desk.load corpusId members = (desk, .failed error)) ∨
      ∃ index, desk.load corpusId members =
        ({ desk with session := (desk.session.publish index).1 },
          .snapshot (desk.session.publish index).2) := by
  rw [Desk.load]
  cases hb : desk.session.buildIndex corpusId members with
  | error error =>
    rw [Session.load_fst_of_error hb]
    exact .inl ⟨error, rfl⟩
  | ok index =>
    rw [Session.load_of_ok hb]
    exact .inr ⟨index, rfl⟩

/-- A request leaves the session as it is, unloads the active snapshot or publishes the next one,
and its reply says which. -/
theorem session_step_cases (desk : Desk) (request : Request) :
    effect? (request, (desk.step request).2) = none ∧
        (desk.step request).1.session = desk.session ∨
      effect? (request, (desk.step request).2) = some none ∧
        (desk.step request).1.session = desk.session.unload ∨
      ∃ index, effect? (request, (desk.step request).2) =
          some (some (desk.session.publish index).2) ∧
        (desk.step request).1.session = (desk.session.publish index).1 := by
  cases request with
  | load corpusId members =>
    rw [step]
    rcases desk.load_cases corpusId members with ⟨error, hl⟩ | ⟨index, hl⟩
    · rw [hl]
      exact .inl ⟨rfl, rfl⟩
    · rw [hl]
      exact .inr (.inr ⟨index, rfl, rfl⟩)
  | loadText text =>
    rw [step]
    split
    · next corpus _ =>
      rcases desk.load_cases corpus.id (.ok corpus.members) with ⟨error, hl⟩ | ⟨index, hl⟩
      · rw [hl]
        exact .inl ⟨rfl, rfl⟩
      · rw [hl]
        exact .inr (.inr ⟨index, rfl, rfl⟩)
    · exact .inl ⟨rfl, rfl⟩
  | unload => exact .inr (.inl ⟨rfl, rfl⟩)
  | hold name | held name | spawn name job | cancel name | wait name =>
    left
    rw [step]
    split <;> exact ⟨rfl, rfl⟩
  | settings | snapshot | isCurrent generation | generate method | resolve source =>
    exact .inl ⟨rfl, rfl⟩

private theorem exists_of_ofExcept {α : Type} {reply : α → Reply}
    {result : Except FingerprintError α} {outcome : Outcome}
    (h : Reply.ofExcept reply result = .outcome outcome) :
    ∃ value, result = .ok value ∧ reply value = .outcome outcome := by
  cases result with
  | error error => cases h
  | ok value => exact ⟨value, rfl, h⟩

/-- A report is replied to a request for it, or on waiting for a task. -/
theorem report_of_step {desk : Desk} {request : Request} {report : Report}
    (h : (desk.step request).2 = .outcome (.report report)) :
    (∃ method, desk.session.generate method = .ok report) ∨
      ∃ name task, desk.tasks.lookup name = some task ∧ task.wait = .ok (.report report) := by
  cases request with
  | generate method =>
    obtain ⟨made, hg, he⟩ := exists_of_ofExcept h
    cases he
    exact .inl ⟨method, hg⟩
  | wait name =>
    rw [step] at h
    split at h
    · next task ht =>
      obtain ⟨outcome, hw, he⟩ := exists_of_ofExcept h
      cases he
      exact .inr ⟨name, task, ht, hw⟩
    · cases h
  | load corpusId members | resolve source | snapshot =>
    obtain ⟨_, _, he⟩ := exists_of_ofExcept h
    cases he
  | loadText text =>
    rw [step] at h
    split at h
    · obtain ⟨_, _, he⟩ := exists_of_ofExcept h
      cases he
    · cases h
  | hold name | held name | spawn name job | cancel name =>
    rw [step] at h
    split at h <;> cases h
  | unload | settings | isCurrent generation => cases h

/-! ### All requests -/

/-- A report is the one that a published snapshot gives. -/
def Reported (settings : Settings) (evaluator : Evaluator) (history : History) (report : Report) :
    Prop :=
  ∃ snapshot ∈ published history, snapshot.generation = report.generation ∧
    snapshot.report settings evaluator report.method false = .ok report

/-- What a desk keeps of its history: how many snapshots were published and which is active, that
tasks work on published snapshots, and where all reports come from. -/
structure Follows (settings : Settings) (evaluator : Evaluator) (history : History) (desk : Desk) :
    Prop where
  settings_eq : desk.session.settings = settings
  evaluator_eq : desk.session.evaluator = evaluator
  loads_eq : desk.session.loads = (published history).length
  current_eq : desk.session.current = active history
  generation_eq : ∀ k snapshot, (published history)[k]? = some snapshot →
    snapshot.generation = k + 1
  tasks_from : ∀ name task, desk.tasks.lookup name = some task → task.settings = settings ∧
    task.evaluator = evaluator ∧ task.snapshot ∈ published history
  reported : ∀ entry ∈ history, ∀ report, entry.2 = .outcome (.report report) →
    Reported settings evaluator history report

variable {settings : Settings} {evaluator : Evaluator} {history : History} {desk : Desk}

/-- A new desk has no history. -/
theorem follows_new (settings : Settings) (evaluator : Evaluator) :
    Follows settings evaluator [] { session := { settings, evaluator } } where
  settings_eq := rfl
  evaluator_eq := rfl
  loads_eq := rfl
  current_eq := rfl
  generation_eq := fun _ _ h ↦ by cases h
  tasks_from := fun _ _ h ↦ by cases h
  reported := fun _ h ↦ by cases h

private theorem mem_published_concat {snapshot : Snapshot} (h : snapshot ∈ published history)
    (entry : Request × Reply) : snapshot ∈ published (history ++ [entry]) := by
  rw [published_concat]
  exact List.mem_append_left _ h

private theorem Reported.concat {report : Report}
    (h : Reported settings evaluator history report) (entry : Request × Reply) :
    Reported settings evaluator (history ++ [entry]) report := by
  obtain ⟨snapshot, hs, hg⟩ := h
  exact ⟨snapshot, mem_published_concat hs entry, hg⟩

private theorem Follows.active_mem (h : Follows settings evaluator history desk)
    {snapshot : Snapshot} (hc : desk.session.current = some snapshot) :
    snapshot ∈ published history := mem_published_of_active (h.current_eq.symm.trans hc)

private theorem Follows.reported_step (h : Follows settings evaluator history desk)
    {request : Request} {report : Report}
    (hr : (desk.step request).2 = .outcome (.report report)) :
    Reported settings evaluator history report := by
  rcases report_of_step hr with ⟨method, hg⟩ | ⟨name, task, hk, hw⟩
  · obtain ⟨active, hc, hm⟩ := Session.exists_of_generate hg
    rw [h.settings_eq, h.evaluator_eq] at hm
    obtain ⟨rfl, hgen⟩ := Snapshot.eq_of_report hm
    exact ⟨active, h.active_mem hc, hgen.symm, hm⟩
  · obtain ⟨hs, he, hp⟩ := h.tasks_from name task hk
    obtain ⟨method, hm⟩ := Task.report_of_wait hw
    rw [hs, he] at hm
    obtain ⟨rfl, hgen⟩ := Snapshot.eq_of_report hm
    exact ⟨task.snapshot, hp, hgen.symm, hm⟩

private theorem Follows.tasks_from_step (h : Follows settings evaluator history desk)
    {request : Request} {name : String} {task : Task}
    (hk : (desk.step request).1.tasks.lookup name = some task) :
    task.settings = settings ∧ task.evaluator = evaluator ∧ task.snapshot ∈ published history := by
  rcases lookup_step_cases hk with ⟨old, asked, ho, rfl⟩ | ⟨job, _, hs⟩
  · exact h.tasks_from name old ho
  · obtain ⟨active, hc, rfl⟩ := Session.exists_of_spawn hs
    exact ⟨h.settings_eq, h.evaluator_eq, h.active_mem hc⟩

/-- A desk follows its history with one more request. -/
theorem Follows.step (h : Follows settings evaluator history desk) (request : Request) :
    Follows settings evaluator (history ++ [(request, (desk.step request).2)])
      (desk.step request).1 := by
  have hpub := published_concat history (request, (desk.step request).2)
  have hact := active_concat history (request, (desk.step request).2)
  have htasks (name : String) (task : Task)
      (hk : (desk.step request).1.tasks.lookup name = some task) :
      task.settings = settings ∧ task.evaluator = evaluator ∧
        task.snapshot ∈ published (history ++ [(request, (desk.step request).2)]) := by
    obtain ⟨hs, hv, hp⟩ := h.tasks_from_step hk
    exact ⟨hs, hv, mem_published_concat hp _⟩
  have hreported : ∀ entry ∈ history ++ [(request, (desk.step request).2)], ∀ report,
      entry.2 = .outcome (.report report) →
        Reported settings evaluator (history ++ [(request, (desk.step request).2)]) report := by
    intro entry he report hr
    rcases List.mem_append.mp he with he | he
    · exact (h.reported entry he report hr).concat _
    · obtain rfl := List.mem_singleton.mp he
      exact (h.reported_step hr).concat _
  rcases desk.session_step_cases request with ⟨hn, hs⟩ | ⟨hu, hs⟩ | ⟨index, hl, hs⟩
  · rw [hn] at hact hpub
    rw [Option.join_none, Option.toList_none, List.append_nil] at hpub
    exact ⟨hs ▸ h.settings_eq, hs ▸ h.evaluator_eq, hs ▸ hpub ▸ h.loads_eq,
      hs ▸ hact ▸ h.current_eq, hpub ▸ h.generation_eq, htasks, hreported⟩
  · rw [hu] at hact hpub
    rw [Option.join_some, Option.toList_none, List.append_nil] at hpub
    exact ⟨hs ▸ h.settings_eq, hs ▸ h.evaluator_eq, hs ▸ hpub ▸ h.loads_eq,
      hs ▸ hact ▸ rfl, hpub ▸ h.generation_eq, htasks, hreported⟩
  · rw [hl] at hact hpub
    rw [Option.join_some, Option.toList_some] at hpub
    have hgen (k : Nat) (snapshot : Snapshot)
        (hk : (published history ++ [(desk.session.publish index).2])[k]? = some snapshot) :
        snapshot.generation = k + 1 := by
      -- the new snapshot stands at the end, and its generation is one more than the loads before
      rw [List.getElem?_append] at hk
      split at hk
      · exact h.generation_eq k snapshot hk
      · next hlt =>
        rw [List.getElem?_singleton] at hk
        split at hk
        · next h0 =>
          cases hk
          show desk.session.loads + 1 = k + 1
          have hloads := h.loads_eq
          omega
        · cases hk
    refine ⟨hs ▸ h.settings_eq, hs ▸ h.evaluator_eq, ?_, hs ▸ hact ▸ rfl, hpub ▸ hgen, htasks,
      hreported⟩
    rw [hs, hpub, List.length_append, ← h.loads_eq]
    rfl

/-- A desk follows its history along every run. -/
theorem Follows.run (h : Follows settings evaluator history desk) (requests : List Request) :
    Follows settings evaluator (history ++ desk.history requests) (desk.run requests).1 := by
  induction requests generalizing desk history with
  | nil => simpa [Desk.history, Desk.run] using h
  | cons request requests ih =>
    have hrun := ih (h.step request)
    rwa [List.append_assoc] at hrun

/-- A generation stands for one published snapshot. -/
theorem Follows.eq_of_generation (h : Follows settings evaluator history desk)
    {first second : Snapshot} (hf : first ∈ published history) (hs : second ∈ published history)
    (hg : first.generation = second.generation) : first = second := by
  obtain ⟨i, hi⟩ := List.mem_iff_getElem?.mp hf
  obtain ⟨j, hj⟩ := List.mem_iff_getElem?.mp hs
  have hfirst := h.generation_eq i first hi
  have hsecond := h.generation_eq j second hj
  obtain rfl : i = j := by omega
  exact Option.some.inj (hi.symm.trans hj)

private theorem stale_step {generation : Nat} (hle : generation ≤ desk.session.loads)
    (hstale : desk.session.isCurrent generation = false) (request : Request) :
    generation ≤ (desk.step request).1.session.loads ∧
      (desk.step request).1.session.isCurrent generation = false := by
  rcases desk.session_step_cases request with ⟨_, hs⟩ | ⟨_, hs⟩ | ⟨index, _, hs⟩
  · rw [hs]
    exact ⟨hle, hstale⟩
  · rw [hs]
    exact ⟨hle, rfl⟩
  · rw [hs]
    refine ⟨Nat.le_succ_of_le hle, ?_⟩
    show (desk.session.loads + 1 == generation) = false
    apply beq_eq_false_iff_ne.mpr
    omega

/-- A generation that was taken and is not current never is current again. -/
theorem stale_run {generation : Nat} (hle : generation ≤ desk.session.loads)
    (hstale : desk.session.isCurrent generation = false) (requests : List Request) :
    (desk.run requests).1.session.isCurrent generation = false := by
  induction requests generalizing desk with
  | nil => exact hstale
  | cons request requests ih =>
    obtain ⟨hle, hstale⟩ := stale_step hle hstale request
    exact ih hle hstale

private theorem Follows.generation_le (h : Follows settings evaluator history desk)
    {snapshot : Snapshot} (hs : snapshot ∈ published history) :
    snapshot.generation ≤ desk.session.loads := by
  obtain ⟨k, hk⟩ := List.mem_iff_getElem?.mp hs
  obtain ⟨hlt, _⟩ := List.getElem?_eq_some_iff.mp hk
  rw [h.generation_eq k snapshot hk, h.loads_eq]
  exact hlt

private theorem Follows.generate_eq (h : Follows settings evaluator history desk)
    {report : Report} (hr : Reported settings evaluator history report)
    (hc : desk.session.isCurrent report.generation = true) :
    desk.session.generate report.method = .ok report := by
  obtain ⟨snapshot, hs, hg, hmade⟩ := hr
  obtain ⟨active, hactive, hag⟩ := Session.isCurrent_iff.mp hc
  obtain rfl := h.eq_of_generation (h.active_mem hactive) hs (hag.trans hg.symm)
  rw [Session.generate_of_current hactive, h.settings_eq, h.evaluator_eq]
  exact hmade

/-- Whatever is asked of a new session: the snapshots that were published are counted by their
generations, the active one is that of the last load to succeed unless an unloading came after it,
no other request changes the session, a generation that is no longer current stays so, and a report
of the current generation is the one that would be made now. -/
theorem session_of_history (settings : Settings) (evaluator : Evaluator)
    (requests : List Request) :
    let start : Desk := { session := { settings, evaluator } }
    let past := start.history requests
    let desk := (start.run requests).1
    (desk.session.loads = (published past).length ∧
      ∀ k snapshot, (published past)[k]? = some snapshot → snapshot.generation = k + 1) ∧
    desk.session.current = active past ∧
    (∀ request, effect? (request, (desk.step request).2) = none →
      (desk.step request).1.session = desk.session) ∧
    (∀ generation, desk.session.isCurrent generation = true ↔
      ∃ snapshot, active past = some snapshot ∧ snapshot.generation = generation) ∧
    (∀ snapshot ∈ published past, desk.session.isCurrent snapshot.generation = false →
      ∀ later, (desk.run later).1.session.isCurrent snapshot.generation = false) ∧
    ∀ request report, (request, .outcome (.report report)) ∈ past →
      desk.session.isCurrent report.generation = true →
      desk.session.generate report.method = .ok report := by
  intro start past desk
  have h : Follows settings evaluator past desk := (follows_new settings evaluator).run requests
  refine ⟨⟨h.loads_eq, h.generation_eq⟩, h.current_eq, fun request hn ↦ ?_, fun generation ↦ ?_,
    fun snapshot hs hstale later ↦ ?_, fun request report hm hc ↦ ?_⟩
  · rcases desk.session_step_cases request with ⟨_, hs⟩ | ⟨hu, _⟩ | ⟨index, hl, _⟩
    · exact hs
    · rw [hn] at hu
      cases hu
    · rw [hn] at hl
      cases hl
  · rw [← h.current_eq]
    exact Session.isCurrent_iff
  · exact stale_run (h.generation_le hs) hstale later
  · exact h.generate_eq (h.reported _ hm report rfl) hc

end Desk

end MethodPrint
