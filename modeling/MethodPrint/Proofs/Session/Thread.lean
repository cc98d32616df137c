import MethodPrint.Proofs.Session.Tasks
import MethodPrint.Session.Workshop

/-!
# The thread of a task

Wherever the thread of a task finds the flag set, waiting for the task gives the same: a flag that
is set stays set, and the user looks at it last. So all that has to be known of a thread is that it
holds the result of its job, unless it was asked to stop. It comes to an end after a few moves.
-/

namespace MethodPrint

namespace Task

/-- A task that is asked to stop has the same result. -/
@[simp] theorem result_cancelIf (task : Task) (asked abandoned : Bool) :
    (task.cancelIf asked).result abandoned = task.result abandoned := rfl

/-- What a search that was not given up comes to is received on waiting for the task. -/
theorem receive_result (task : Task) : task.receive (task.result false) = task.wait := by
  rw [receive, wait, result]
  cases task.job <;> rfl

end Task

namespace Progress

/-- What is known of the thread of a task, which may have been killed. -/
def Agrees (task : Task) (killed : Bool) : Progress → Prop
  | .working _ abandoned => killed = false ∧ (abandoned = true → task.cancelled = true)
  -- a search that was given up has another result, but then the flag is set for good
  | .finished result => killed = false ∧ (task.cancelled = true ∨ result = task.result false)
  | .cleared result | .delivered result => killed = false ∧ result = task.result false
  | .stopped =>
    task.cancelled = true ∨ killed = true ∨ task.result false = .error .workerStopped

/-- A bound on the moves that a thread has left. -/
def remaining : Progress → Nat
  | .working looks abandoned => (if abandoned then 0 else looks) + 3
  | .finished _ => 2
  | .cleared _ => 1
  | .delivered _ | .stopped => 0

variable {task : Task} {killed : Bool} {progress next : Progress} {move : Move}

theorem agrees_started (task : Task) : (started task.job).Agrees task false := by
  cases task.job <;> exact ⟨rfl, nofun⟩

theorem remaining_started (job : Job) : (started job).remaining ≤ Strategy.greedy.length + 3 := by
  cases job with
  | fingerprint method => exact Nat.le_refl _
  | resolve source => exact Nat.le_add_left 3 _

/-- Asking a task to stop takes nothing away from what is known of its thread. -/
theorem Agrees.cancelIf (h : progress.Agrees task killed) (asked : Bool) :
    progress.Agrees (task.cancelIf asked) killed := by
  have hmono (hc : task.cancelled = true) : (task.cancelIf asked).cancelled = true := by
    rw [Task.cancelIf_cancelled, hc, Bool.true_or]
  cases progress with
  | working looks abandoned => exact ⟨h.1, fun ha ↦ hmono (h.2 ha)⟩
  | finished result => exact ⟨h.1, h.2.imp_left hmono⟩
  | cleared result | delivered result => exact h
  | stopped => exact h.imp_left hmono

private theorem agrees_ofResult {result : Except FingerprintError Outcome}
    (h : task.cancelled = true ∨ result = task.result false) :
    (ofResult result).Agrees task false := by
  unfold ofResult
  split
  · exact ⟨rfl, h⟩
  · next error =>
    split
    · next he =>
      subst he
      exact h.imp_right fun hr ↦ .inr hr.symm
    · exact ⟨rfl, h⟩

/-- Every move of a thread keeps what is known of it. -/
theorem Agrees.advance (h : progress.Agrees task killed)
    (ha : task.advance progress move = some next) :
    next.Agrees task (killed || move == .die) := by
  unfold Task.advance at ha
  split at ha
  · cases ha
    exact ⟨by simp [h.1], id⟩
  · next looks abandoned =>
    split at ha
    · cases ha
      obtain ⟨rfl, hc⟩ := h
      cases abandoned with
      | true => exact agrees_ofResult (.inl (hc rfl))
      | false => exact agrees_ofResult (.inr rfl)
    · cases ha
  · cases ha
    exact .inr (.inl (Bool.or_true _))
  · next result =>
    cases ha
    obtain ⟨rfl, hr⟩ := h
    by_cases hc : task.cancelled
    · rw [if_pos hc]
      exact .inl hc
    · rw [if_neg hc]
      exact ⟨rfl, hr.resolve_left hc⟩
  · cases ha
    exact ⟨by simp [h.1], h.2⟩
  · cases ha

/-- What waiting for a task gives, if there is something to be had from its thread. -/
theorem Agrees.receive (h : progress.Agrees task killed)
    {delivered : Except FingerprintError Outcome} (hs : progress.settled? = some delivered) :
    task.receive delivered =
      if task.cancelled then .error .cancelled
      else if killed then .error .workerStopped
      else task.result false := by
  rw [Task.receive]
  split
  · rfl
  · next hc =>
    unfold settled? at hs
    split at hs
    · cases hs
      obtain ⟨rfl, hr⟩ := h
      exact hr
    · cases hs
      split
      · rfl
      · next hk => exact ((h.resolve_left hc).resolve_left hk).symm
    · cases hs

/-- Waiting for a task whose thread was not killed gives what doing its job at once gives. -/
theorem Agrees.receive_eq_wait (h : progress.Agrees task false)
    {delivered : Except FingerprintError Outcome} (hs : progress.settled? = some delivered) :
    task.receive delivered = task.wait := by
  rw [← Task.receive_result, h.receive hs, Task.receive]
  simp

private theorem remaining_ofResult (result : Except FingerprintError Outcome) :
    (ofResult result).remaining ≤ 2 := by
  unfold ofResult
  split
  · exact Nat.le_refl 2
  · split
    · exact Nat.zero_le 2
    · exact Nat.le_refl 2

/-- Every move of a thread brings it closer to its end. -/
theorem remaining_lt_of_advance (ha : task.advance progress move = some next) :
    next.remaining < progress.remaining := by
  unfold Task.advance at ha
  split at ha
  · cases ha
    simp only [remaining, Bool.false_eq_true, if_false]
    split <;> omega
  · next looks abandoned =>
    split at ha
    · cases ha
      exact Nat.lt_of_le_of_lt (remaining_ofResult _) (Nat.le_add_left 3 _)
    · cases ha
  · cases ha
    simp [remaining]
  · cases ha
    split <;> simp [remaining]
  · cases ha
    simp [remaining]
  · cases ha

/-- A thread that has not come to its end can make a move. -/
theorem exists_advance (task : Task) (h : progress.settled? = none) :
    ∃ move next, move ≠ .die ∧ task.advance progress move = some next := by
  cases progress with
  | working looks abandoned =>
    by_cases hf : looks = 0 ∨ abandoned = true
    · exact ⟨.finish, _, by decide, by rw [Task.advance, if_pos hf]⟩
    · obtain ⟨hl, ha⟩ := not_or.mp hf
      obtain ⟨looks, rfl⟩ := Nat.exists_eq_succ_of_ne_zero hl
      obtain rfl := Bool.eq_false_iff.mpr ha
      exact ⟨.look, _, by decide, rfl⟩
  | finished result => exact ⟨.clear, _, by decide, rfl⟩
  | cleared result => exact ⟨.send, _, by decide, rfl⟩
  | delivered result => cases h
  | stopped => cases h

end Progress

end MethodPrint
