import MethodPrint.Session.Desk

/-!
# Threads of background tasks

A desk gives the result of a task where it is waited for. Here each task has a thread of its own,
which does the job, looks at the flag of the task and sends the result back; requests and the moves
of threads come in any order. The thread and the user of a task share the flag and a channel that
carries one result, and every use of either of them is a step of its own.

`SPEC_FULL.md` 5; operations `spawn` and `wait` of the worker.
-/

namespace MethodPrint

/-- What the job of a task comes to. A search that has found the flag set gives up. -/
def Task.result (task : Task) (abandoned : Bool) : Except FingerprintError Outcome :=
  match task.job with
  | .fingerprint method =>
    (task.snapshot.report task.settings task.evaluator method abandoned).map .report
  | .resolve source => (task.snapshot.index.resolveSource task.evaluator source).map .resolution

/-- What the user of a task receives. A task that was cancelled delivers nothing, whatever has come
through its channel. -/
def Task.receive (task : Task) (delivered : Except FingerprintError Outcome) :
    Except FingerprintError Outcome :=
  if task.cancelled then .error .cancelled else delivered

/-- How far the thread of a task is. -/
inductive Progress where
  /-- At the job. The search looks at the flag some more times, unless it has found it set. -/
  | working (looks : Nat) (abandoned : Bool)
  /-- Done with the job. -/
  | finished (result : Except FingerprintError Outcome)
  /-- About to send the result, as the flag was not set. -/
  | cleared (result : Except FingerprintError Outcome)
  | delivered (result : Except FingerprintError Outcome)
  /-- Gone without having sent anything. -/
  | stopped

/-- What a thread can do. -/
inductive Move where
  /-- Look at the flag during the search. -/
  | look
  /-- Come to the end of the job. -/
  | finish
  /-- Look at the flag after the job. -/
  | clear
  | send
  | die
  deriving DecidableEq

namespace Progress

/-- How far a thread is when it is started. A search looks at the flag before each greedy
strategy. -/
def started : Job → Progress
  | .fingerprint _ => .working Strategy.greedy.length false
  | .resolve _ => .working 0 false

/-- How far a thread is at the end of its job. It does not survive the death of the evaluator. -/
def ofResult : Except FingerprintError Outcome → Progress
  | .ok outcome => .finished (.ok outcome)
  | .error error => if error = .workerStopped then .stopped else .finished (.error error)

/-- What waiting for a thread gives, once there is something to be had: the result that was sent,
or word that none will be. -/
def settled? : Progress → Option (Except FingerprintError Outcome)
  | .delivered result => some result
  | .stopped => some (.error .workerStopped)
  | _ => none

end Progress

/-- How far a move takes the thread of a task, if the thread can make it. -/
def Task.advance (task : Task) : Progress → Move → Option Progress
  | .working (looks + 1) false, .look => some (.working looks task.cancelled)
  | .working looks abandoned, .finish =>
    if looks = 0 ∨ abandoned then some (.ofResult (task.result abandoned)) else none
  | .working _ _, .die => some .stopped
  | .finished result, .clear => some (if task.cancelled then .stopped else .cleared result)
  | .cleared result, .send => some (.delivered result)
  | _, _ => none

/-- A desk with the threads of its tasks. -/
structure Workshop where
  desk : Desk
  /-- How far the thread of the task is that is kept under a name. -/
  threads : String → Progress := fun _ ↦ .stopped

/-- What can happen in a workshop. -/
inductive Event where
  | asked (request : Request)
  /-- The thread of the task that is kept under a name makes a move. -/
  | moved (name : String) (move : Move)

namespace Workshop

/-- The threads after a request and the reply to it. -/
def threadsAfter (threads : String → Progress) : Request → Reply → String → Progress
  | .spawn name job, .spawned _ _ =>
    fun other ↦ if other = name then .started job else threads other
  | _, _ => threads

/-- Answers a request, unless it has to wait. -/
def answer (workshop : Workshop) : Request → Option (Workshop × Reply)
  | .wait name =>
    match workshop.desk.tasks.lookup name with
    | some task =>
      (workshop.threads name).settled?.map fun delivered ↦
        ({ workshop with desk.tasks := Desk.drop workshop.desk.tasks name },
          .ofExcept .outcome (task.receive delivered))
    | none => some (workshop, .unknownName name)
  | request =>
    let (desk, reply) := workshop.desk.step request
    some ({ desk, threads := threadsAfter workshop.threads request reply }, reply)

/-- Lets a thread make a move, if there is one that can. -/
def advance (workshop : Workshop) (name : String) (move : Move) : Option Workshop := do
  let task ← workshop.desk.tasks.lookup name
  let progress ← task.advance (workshop.threads name) move
  return { workshop with
    threads := fun other ↦ if other = name then progress else workshop.threads other }

/-- What becomes of a workshop in an event, if it can happen, and the reply to it if the event is a
request. -/
def step (workshop : Workshop) : Event → Option (Workshop × Option Reply)
  | .asked request => (workshop.answer request).map fun (later, reply) ↦ (later, some reply)
  | .moved name move => (workshop.advance name move).map (·, none)

/-- What becomes of a workshop in a sequence of events, if they can happen, and the replies. -/
def run (workshop : Workshop) : List Event → Option (Workshop × List Reply)
  | [] => some (workshop, [])
  | event :: events => do
    let (workshop, reply) ← workshop.step event
    let (workshop, replies) ← workshop.run events
    return (workshop, reply.toList ++ replies)

/-- A request that is answered is an event. -/
theorem step_asked {workshop later : Workshop} {request : Request} {reply : Reply}
    (h : workshop.answer request = some (later, reply)) :
    workshop.step (.asked request) = some (later, some reply) := by
  simp [step, h]

/-- A move that is made is an event. -/
theorem step_moved {workshop later : Workshop} {name : String} {move : Move}
    (h : workshop.advance name move = some later) :
    workshop.step (.moved name move) = some (later, none) := by
  simp [step, h]

end Workshop

end MethodPrint
