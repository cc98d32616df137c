import MethodPrint.Session.Task
import MethodPrint.Stored.Read

/-!
# Requests to a session

A desk is a session together with the snapshots and tasks that its user keeps under names. Every
request changes the desk and gets a reply; a sequence of requests is answered one by one.
-/

namespace MethodPrint

/-- What can be asked of a desk. -/
inductive Request where
  | settings
  /-- Load a corpus whose members may fail to be enumerated. -/
  | load (corpusId : String) (members : Except FingerprintError (List Member))
  /-- Load a corpus from its stored form. -/
  | loadText (text : String)
  | unload
  | snapshot
  | isCurrent (generation : Nat)
  | generate (method : MethodId)
  | resolve (source : String)
  /-- Keep the active snapshot under a name. -/
  | hold (name : String)
  /-- Look at a snapshot that is kept. -/
  | held (name : String)
  /-- Start a task and keep it under a name, in place of an older one. -/
  | spawn (name : String) (job : Job)
  | cancel (name : String)
  /-- Wait for a task, which is then kept no longer. -/
  | wait (name : String)

/-- What a desk replies. -/
inductive Reply where
  | settings (settings : Settings)
  | snapshot (snapshot : Snapshot)
  | done
  | isCurrent (answer : Bool)
  | held (snapshot : Snapshot) (isCurrent : Bool)
  | outcome (outcome : Outcome)
  | spawned (generation : Nat) (cancelled : Bool)
  | cancelled
  | failed (error : FingerprintError)
  /-- Nothing is kept under the name. -/
  | unknownName (name : String)

namespace Reply

/-- The reply to a request that may fail. -/
def ofExcept {α : Type} (reply : α → Reply) : Except FingerprintError α → Reply
  | .ok value => reply value
  | .error error => .failed error

end Reply

/-- A session with what is kept under names. -/
structure Desk where
  session : Session
  held : List (String × Snapshot) := []
  tasks : List (String × Task) := []

namespace Desk

/-- The values kept under names with one more in place of an older one. -/
def keep {α : Type} (kept : List (String × α)) (name : String) (value : α) : List (String × α) :=
  (name, value) :: kept.filter (·.1 != name)

/-- The values kept under all names but one. -/
def drop {α : Type} (kept : List (String × α)) (name : String) : List (String × α) :=
  kept.filter (·.1 != name)

/-- Loads a corpus. -/
def load (desk : Desk) (corpusId : String) (members : Except FingerprintError (List Member)) :
    Desk × Reply :=
  let (session, result) := desk.session.load corpusId members
  ({ desk with session }, .ofExcept .snapshot result)

/-- Answers one request. -/
def step (desk : Desk) : Request → Desk × Reply
  | .settings => (desk, .settings desk.session.settings)
  | .load corpusId members => desk.load corpusId members
  | .loadText text =>
    match Corpus.ofText text with
    | .ok corpus => desk.load corpus.id (.ok corpus.members)
    | .error fault => (desk, .failed (.json fault))
  | .unload => ({ desk with session := desk.session.unload }, .done)
  | .snapshot => (desk, .ofExcept .snapshot desk.session.snapshot)
  | .isCurrent generation => (desk, .isCurrent (desk.session.isCurrent generation))
  | .generate method =>
    (desk, .ofExcept (.outcome ∘ .report) (desk.session.generate method))
  | .resolve source =>
    (desk, .ofExcept (.outcome ∘ .resolution) (desk.session.resolve source))
  | .hold name =>
    match desk.session.snapshot with
    | .ok snapshot => ({ desk with held := keep desk.held name snapshot }, .snapshot snapshot)
    | .error error => (desk, .failed error)
  | .held name =>
    match desk.held.lookup name with
    | some snapshot =>
      (desk, .held snapshot (desk.session.isCurrent snapshot.generation))
    | none => (desk, .unknownName name)
  | .spawn name job =>
    match desk.session.spawn job with
    | .ok task =>
      ({ desk with tasks := keep desk.tasks name task }, .spawned task.generation task.cancelled)
    | .error error => (desk, .failed error)
  | .cancel name =>
    match desk.tasks.lookup name with
    | some task => ({ desk with tasks := keep desk.tasks name task.cancel }, .cancelled)
    | none => (desk, .unknownName name)
  | .wait name =>
    match desk.tasks.lookup name with
    | some task => ({ desk with tasks := drop desk.tasks name }, .ofExcept .outcome task.wait)
    | none => (desk, .unknownName name)

/-- Answers requests one by one. -/
def run (desk : Desk) : List Request → Desk × List Reply
  | [] => (desk, [])
  | request :: requests =>
    let (desk, reply) := desk.step request
    let (desk, replies) := desk.run requests
    (desk, reply :: replies)

/-- Every request gets one reply. -/
theorem length_run (desk : Desk) (requests : List Request) :
    (desk.run requests).2.length = requests.length := by
  induction requests generalizing desk with
  | nil => rfl
  | cons request requests ih => simp [run, ih]

/-- What was kept last under a name is found there. -/
theorem lookup_keep {α : Type} (kept : List (String × α)) (name : String) (value : α) :
    (keep kept name value).lookup name = some value := by
  simp [keep]

/-- Nothing is found under a name that was dropped. -/
theorem lookup_drop {α : Type} (kept : List (String × α)) (name : String) :
    (drop kept name).lookup name = none := by
  rw [List.lookup_eq_none_iff]
  intro entry he
  have hne : entry.1 ≠ name := bne_iff_ne.mp (List.mem_filter.mp he).2
  exact bne_iff_ne.mpr hne.symm

/-- Dropping a name leaves the other names as they are. -/
theorem lookup_drop_of_ne {α : Type} (kept : List (String × α)) {name other : String}
    (h : other ≠ name) : (drop kept name).lookup other = kept.lookup other := by
  unfold drop
  induction kept with
  | nil => rfl
  | cons entry kept ih =>
    obtain ⟨key, value⟩ := entry
    by_cases hk : key = name
    · subst hk
      simpa [List.lookup_cons, beq_eq_false_iff_ne.mpr h] using ih
    · simp [hk, List.lookup_cons, ih]

/-- Keeping a value leaves the other names as they are. -/
theorem lookup_keep_of_ne {α : Type} (kept : List (String × α)) {name other : String} (value : α)
    (h : other ≠ name) : (keep kept name value).lookup other = kept.lookup other := by
  rw [keep, List.lookup_cons, beq_eq_false_iff_ne.mpr h]
  exact lookup_drop_of_ne kept h

end Desk

end MethodPrint
