import MethodPrint.Session.Desk

/-!
# The tasks of a desk

What is kept as a task under a name is changed only by requests that name it: it is replaced by a
task that is started, taken away by waiting, and marked by cancelling.
-/

namespace MethodPrint

/-- The task after it has been asked to stop, if it has. -/
def Task.cancelIf (task : Task) (asked : Bool) : Task :=
  { task with cancelled := task.cancelled || asked }

@[simp] theorem Task.cancelIf_cancelled (task : Task) (asked : Bool) :
    (task.cancelIf asked).cancelled = (task.cancelled || asked) := rfl

@[simp] theorem Task.cancelIf_false (task : Task) : task.cancelIf false = task := by
  rw [cancelIf, Bool.or_false]

@[simp] theorem Task.cancelIf_cancelIf (task : Task) (first second : Bool) :
    (task.cancelIf first).cancelIf second = task.cancelIf (first || second) := by
  simp only [cancelIf, Bool.or_assoc]

theorem Task.cancelIf_true (task : Task) : task.cancelIf true = task.cancel := by
  rw [cancelIf, Bool.or_true, cancel]

/-- Tasks are started only on an active snapshot. -/
theorem Session.exists_of_spawn {session : Session} {job : Job} {task : Task}
    (h : session.spawn job = .ok task) :
    ∃ active, session.current = some active ∧
      task = { job, settings := session.settings, evaluator := session.evaluator,
               snapshot := active } := by
  cases hc : session.current with
  | none =>
    rw [spawn, snapshot, hc] at h
    cases h
  | some active =>
    rw [spawn, snapshot, hc] at h
    cases h
    exact ⟨active, rfl, rfl⟩

namespace Request

/-- Whether a request may end what is kept as a task under a name: by starting another one in its
place or by waiting for it. -/
def takes (name : String) : Request → Bool
  | .spawn other _ | .wait other => other == name
  | _ => false

/-- Whether a request asks the task under a name to stop. -/
def cancels (name : String) : Request → Bool
  | .cancel other => other == name
  | _ => false

end Request

namespace Desk

variable {desk : Desk} {request : Request} {name : String}

/-- What is kept under a name stays there, marked if it is asked to stop. -/
theorem lookup_step (ht : request.takes name = false) :
    (desk.step request).1.tasks.lookup name =
      (desk.tasks.lookup name).map (·.cancelIf (request.cancels name)) := by
  have hsame : desk.tasks.lookup name = (desk.tasks.lookup name).map (·.cancelIf false) := by simp
  cases request with
  | spawn other job =>
    have hne : name ≠ other := fun he ↦ by simp [Request.takes, he] at ht
    rw [step]
    split
    · rw [lookup_keep_of_ne _ _ hne]
      exact hsame
    · exact hsame
  | wait other =>
    have hne : name ≠ other := fun he ↦ by simp [Request.takes, he] at ht
    rw [step]
    split
    · rw [lookup_drop_of_ne _ hne]
      exact hsame
    · exact hsame
  | cancel other =>
    rw [step]
    by_cases he : other = name
    · subst he
      rw [show Request.cancels other (.cancel other) = true from beq_self_eq_true other]
      split
      · next task hk => rw [lookup_keep, hk, Option.map_some, Task.cancelIf_true]
      · next hk => rw [hk, Option.map_none]
    · rw [show Request.cancels name (.cancel other) = false from beq_eq_false_iff_ne.mpr he]
      split
      · rw [lookup_keep_of_ne _ _ (Ne.symm he)]
        exact hsame
      · exact hsame
  | loadText text | hold other | held other =>
    rw [step]
    split <;> exact hsame
  | load corpusId members | unload | settings | snapshot | isCurrent generation
  | generate method | resolve source => exact hsame

/-- A task that has been waited for is not kept. -/
theorem lookup_wait : (desk.step (.wait name)).1.tasks.lookup name = none := by
  rw [step]
  split
  · exact lookup_drop _ _
  · next hk => exact hk

/-- What is kept under a name after a request was kept there before, marked or not, or has been
started by the request. -/
theorem lookup_step_cases {task : Task}
    (h : (desk.step request).1.tasks.lookup name = some task) :
    (∃ old asked, desk.tasks.lookup name = some old ∧ task = old.cancelIf asked) ∨
      ∃ job, request = .spawn name job ∧ desk.session.spawn job = .ok task := by
  cases ht : request.takes name with
  | false =>
    rw [lookup_step ht] at h
    obtain ⟨old, ho, he⟩ := Option.map_eq_some_iff.mp h
    exact .inl ⟨old, _, ho, he.symm⟩
  | true =>
    cases request with
    | spawn other job =>
      obtain rfl : other = name := beq_iff_eq.mp ht
      rw [step] at h
      split at h
      · next started hs =>
        rw [lookup_keep] at h
        cases h
        exact .inr ⟨job, rfl, hs⟩
      · exact .inl ⟨task, false, h, by simp⟩
    | wait other =>
      obtain rfl : other = name := beq_iff_eq.mp ht
      rw [lookup_wait] at h
      cases h
    | _ => cases ht

end Desk

end MethodPrint
