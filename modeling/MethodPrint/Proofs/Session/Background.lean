import MethodPrint.Proofs.Session.Run
import MethodPrint.Proofs.Session.Thread

/-!
# Tasks in the background

What is received on waiting for a task is settled when the task is started, up to whether it is
cancelled or killed: no other request, no other task and no order of events makes a difference. So a
workshop in which no thread dies replies what its desk replies, which does all jobs at once.
-/

namespace MethodPrint

/-- The request that asks at once for what a job comes to. -/
def Job.request : Job → Request
  | .fingerprint method => .generate method
  | .resolve source => .resolve source

theorem Reply.ofExcept_map {α β : Type} (reply : β → Reply) (f : α → β)
    (result : Except FingerprintError α) :
    ofExcept reply (result.map f) = ofExcept (reply ∘ f) result := by
  cases result <;> rfl

/-- A task has the result that its request has when it is started. -/
theorem Desk.step_request {desk : Desk} {job : Job} {task : Task}
    (h : desk.session.spawn job = .ok task) :
    (desk.step job.request).2 = .ofExcept .outcome (task.result false) := by
  obtain ⟨active, hc, rfl⟩ := Session.exists_of_spawn h
  cases job with
  | fingerprint method =>
    rw [Job.request, step, Session.generate_of_current hc, Task.result, Reply.ofExcept_map]
  | resolve source =>
    rw [Job.request, step, Session.resolve_of_current hc, Task.result, Reply.ofExcept_map]

namespace Event

/-- The request of an event, if it is one. -/
def request? : Event → Option Request
  | .asked request => some request
  | .moved _ _ => none

/-- Whether an event may end what is kept as a task under a name. -/
def takes (name : String) (event : Event) : Bool := event.request?.any (·.takes name)

/-- Whether an event asks the task under a name to stop. -/
def cancels (name : String) (event : Event) : Bool := event.request?.any (·.cancels name)

/-- Whether an event is a move of the thread of the task under a name. -/
def moves (name : String) : Event → Bool
  | .asked _ => false
  | .moved other _ => other == name

/-- Whether a thread dies in an event. -/
def isDeath : Event → Bool
  | .asked _ => false
  | .moved _ move => move == .die

/-- Whether the thread of the task under a name dies in an event. -/
def kills (name : String) (event : Event) : Bool := event.moves name && event.isDeath

end Event

namespace Workshop

variable {workshop later : Workshop} {request : Request} {reply : Reply} {name : String}

/-! ### One event -/

/-- A request does to a desk in a workshop what it does to the desk, and gets the same reply unless
it waits for a task. -/
theorem answer_cases (h : workshop.answer request = some (later, reply)) :
    later = { desk := (workshop.desk.step request).1,
              threads := threadsAfter workshop.threads request reply } ∧
      (reply = (workshop.desk.step request).2 ∨
        ∃ other task delivered, request = .wait other ∧
          workshop.desk.tasks.lookup other = some task ∧
          (workshop.threads other).settled? = some delivered ∧
          reply = .ofExcept .outcome (task.receive delivered)) := by
  cases request with
  | wait other =>
    rw [answer] at h
    split at h
    · next task hk =>
      obtain ⟨delivered, hd, he⟩ := Option.map_eq_some_iff.mp h
      cases he
      rw [Desk.step, hk]
      exact ⟨rfl, .inr ⟨other, task, delivered, rfl, hk, hd, rfl⟩⟩
    · next hk =>
      cases h
      rw [Desk.step, hk]
      exact ⟨rfl, .inl rfl⟩
  | _ =>
    cases h
    exact ⟨rfl, .inl rfl⟩

/-- Only waiting can take time. -/
theorem answer_of_not_waits (h : ∀ other, request ≠ .wait other) :
    workshop.answer request =
      some ({ desk := (workshop.desk.step request).1,
              threads := threadsAfter workshop.threads request (workshop.desk.step request).2 },
            (workshop.desk.step request).2) := by
  cases request with
  | wait other => exact absurd rfl (h other)
  | _ => rfl

/-- A request that does not take a task leaves its thread alone. -/
theorem threadsAfter_of_takes (threads : String → Progress) (ht : request.takes name = false)
    (reply : Reply) :
    threadsAfter threads request reply name = threads name := by
  unfold threadsAfter
  split
  · next other job _ _ =>
    have hne : name ≠ other := fun he ↦ by simp [Request.takes, he] at ht
    rw [if_neg hne]
  · rfl

variable {event : Event} {answer? : Option Reply}

/-- An event is a request that is answered, or a move of the thread of some task. -/
theorem step_cases (h : workshop.step event = some (later, answer?)) :
    (∃ request reply, event = .asked request ∧ answer? = some reply ∧
      workshop.answer request = some (later, reply)) ∨
    ∃ name move task progress, event = .moved name move ∧ answer? = none ∧
      workshop.desk.tasks.lookup name = some task ∧
      task.advance (workshop.threads name) move = some progress ∧
      later = { workshop with
        threads := fun other ↦ if other = name then progress else workshop.threads other } := by
  cases event with
  | asked request =>
    obtain ⟨⟨_, reply⟩, ha, he⟩ := Option.map_eq_some_iff.mp h
    cases he
    exact .inl ⟨request, reply, rfl, rfl, ha⟩
  | moved name move =>
    obtain ⟨_, ha, he⟩ := Option.map_eq_some_iff.mp h
    cases he
    obtain ⟨task, hk, ha⟩ := Option.bind_eq_some_iff.mp ha
    obtain ⟨progress, hp, he⟩ := Option.bind_eq_some_iff.mp ha
    cases he
    exact .inr ⟨name, move, task, progress, rfl, rfl, hk, hp, rfl⟩

/-! ### One task -/

/-- A task is kept under a name, and its thread, which may have been killed, agrees with it. -/
structure Runs (workshop : Workshop) (name : String) (task : Task) (killed : Bool) : Prop where
  kept : workshop.desk.tasks.lookup name = some task
  agrees : (workshop.threads name).Agrees task killed

variable {task : Task} {killed : Bool}

/-- What is kept under a name stays there in an event that does not take it. -/
theorem lookup_of_step (ht : event.takes name = false)
    (hs : workshop.step event = some (later, answer?)) :
    later.desk.tasks.lookup name =
      (workshop.desk.tasks.lookup name).map (·.cancelIf (event.cancels name)) := by
  rcases step_cases hs with ⟨request, reply, rfl, _, ha⟩ | ⟨other, move, _, _, rfl, _, _, _, rfl⟩
  · obtain ⟨rfl, _⟩ := answer_cases ha
    exact Desk.lookup_step ht
  · simp [Event.cancels, Event.request?]

/-- An event leaves the task in the hands of its thread, cancelled or killed if it is an event of
that kind, and counts as a move of the thread if it is one. -/
theorem Runs.step (h : workshop.Runs name task killed) (ht : event.takes name = false)
    (hs : workshop.step event = some (later, answer?)) :
    later.Runs name (task.cancelIf (event.cancels name)) (killed || event.kills name) ∧
      (later.threads name).remaining + (if event.moves name then 1 else 0) ≤
        (workshop.threads name).remaining := by
  have hkept : later.desk.tasks.lookup name = some (task.cancelIf (event.cancels name)) := by
    rw [lookup_of_step ht hs, h.kept]
    rfl
  rcases step_cases hs with
    ⟨request, reply, rfl, _, ha⟩ | ⟨other, move, moving, progress, rfl, _, hk, hp, rfl⟩
  · obtain ⟨rfl, _⟩ := answer_cases ha
    have hthread := threadsAfter_of_takes workshop.threads ht reply
    refine ⟨⟨hkept, ?_⟩, ?_⟩
    · show (threadsAfter workshop.threads request reply name).Agrees _ (killed || false)
      rw [hthread, Bool.or_false]
      exact h.agrees.cancelIf _
    · show (threadsAfter workshop.threads request reply name).remaining + 0 ≤ _
      rw [hthread]
      exact Nat.le_refl _
  · by_cases hn : other = name
    · subst hn
      obtain rfl : moving = task := Option.some.inj (hk.symm.trans h.kept)
      have hagrees := (h.agrees.advance hp).cancelIf (Event.cancels other (.moved other move))
      have hlt := Progress.remaining_lt_of_advance hp
      refine ⟨⟨hkept, ?_⟩, ?_⟩
      · simpa [Event.kills, Event.moves, Event.isDeath] using hagrees
      · simpa [Event.moves, Nat.succ_le_iff] using hlt
    · have hagrees := h.agrees.cancelIf (Event.cancels name (.moved other move))
      refine ⟨⟨hkept, ?_⟩, ?_⟩
      · simpa [Event.kills, Event.moves, beq_eq_false_iff_ne.mpr hn, Ne.symm hn] using hagrees
      · simp [Event.moves, hn, Ne.symm hn]

/-- An event can be put in front of a run. -/
theorem run_cons {next : Workshop} {events : List Event} {replies : List Reply}
    (hs : workshop.step event = some (next, answer?))
    (hr : next.run events = some (later, replies)) :
    workshop.run (event :: events) = some (later, answer?.toList ++ replies) := by
  rw [run, hs, Option.bind_eq_bind, Option.bind_some]
  simp only [hr]
  rfl

/-- A run is a first event and a run from there. -/
theorem exists_of_run_cons {events : List Event} {replies : List Reply}
    (h : workshop.run (event :: events) = some (later, replies)) :
    ∃ next answer? rest, workshop.step event = some (next, answer?) ∧
      next.run events = some (later, rest) ∧ replies = answer?.toList ++ rest := by
  obtain ⟨⟨next, answer?⟩, hs, h⟩ := Option.bind_eq_some_iff.mp h
  obtain ⟨⟨_, rest⟩, hr, h⟩ := Option.bind_eq_some_iff.mp h
  cases h
  exact ⟨next, answer?, rest, hs, hr, rfl⟩

/-- Events leave a task in the hands of its thread, which makes only so many moves. -/
theorem Runs.run (h : workshop.Runs name task killed) {events : List Event}
    (ht : ∀ event ∈ events, event.takes name = false) {replies : List Reply}
    (hr : workshop.run events = some (later, replies)) :
    later.Runs name (task.cancelIf (events.any (·.cancels name)))
        (killed || events.any (·.kills name)) ∧
      (later.threads name).remaining + events.countP (·.moves name) ≤
        (workshop.threads name).remaining := by
  induction events generalizing workshop task killed replies with
  | nil =>
    cases hr
    refine ⟨?_, Nat.le_refl _⟩
    simpa using h
  | cons event events ih =>
    obtain ⟨next, _, rest, hs, hr, _⟩ := exists_of_run_cons hr
    obtain ⟨hnext, hle⟩ := h.step (ht event (List.mem_cons_self ..)) hs
    obtain ⟨hlater, hles⟩ := ih hnext (fun e he ↦ ht e (List.mem_cons_of_mem _ he)) hr
    refine ⟨?_, ?_⟩
    · rwa [Task.cancelIf_cancelIf, Bool.or_assoc] at hlater
    · rw [List.countP_cons]
      omega

/-- What is replied to the user who waits for a task. -/
theorem Runs.reply_eq (h : workshop.Runs name task killed)
    (ha : workshop.answer (.wait name) = some (later, reply)) :
    reply =
      if task.cancelled then .failed .cancelled
      else if killed then .failed .workerStopped
      else .ofExcept .outcome (task.result false) := by
  rw [answer, h.kept] at ha
  obtain ⟨delivered, hd, he⟩ := Option.map_eq_some_iff.mp ha
  cases he
  rw [h.agrees.receive hd]
  split
  · rfl
  · split <;> rfl

/-- Waiting for a task is answered, or its thread can go on. -/
theorem Runs.answered_or_goes_on (h : workshop.Runs name task killed) :
    (∃ later reply, workshop.answer (.wait name) = some (later, reply)) ∨
      ∃ move later, move ≠ .die ∧ workshop.advance name move = some later := by
  cases hs : (workshop.threads name).settled? with
  | some delivered =>
    left
    rw [answer, h.kept]
    simp only [hs, Option.map_some]
    exact ⟨_, _, rfl⟩
  | none =>
    obtain ⟨move, progress, hm, ha⟩ := Progress.exists_advance task hs
    have hmove : (workshop.advance name move).isSome := by
      rw [advance, h.kept, Option.bind_eq_bind, Option.bind_some, ha]
      rfl
    obtain ⟨later, hl⟩ := Option.isSome_iff_exists.mp hmove
    exact .inr ⟨move, later, hm, hl⟩

/-- A task that has been started is in the hands of a new thread. -/
theorem runs_of_spawn {job : Job} (h : workshop.desk.session.spawn job = .ok task) :
    ∃ started, workshop.answer (.spawn name job) =
        some (started, .spawned task.generation false) ∧
      started.desk.session = workshop.desk.session ∧ started.Runs name task false ∧
      started.threads name = .started job := by
  have hnew : task.job = job ∧ task.cancelled = false := by
    obtain ⟨active, _, rfl⟩ := Session.exists_of_spawn h
    exact ⟨rfl, rfl⟩
  have hthread : threadsAfter workshop.threads (.spawn name job)
      (.spawned task.generation false) name = .started job := if_pos rfl
  refine ⟨{ desk := { workshop.desk with tasks := Desk.keep workshop.desk.tasks name task },
            threads := threadsAfter workshop.threads (.spawn name job)
              (.spawned task.generation false) },
    ?_, rfl, ⟨Desk.lookup_keep _ _ _, ?_⟩, hthread⟩
  · rw [answer_of_not_waits (fun _ he ↦ by cases he), Desk.step, h, ← hnew.2]
  · show (threadsAfter workshop.threads (.spawn name job) (.spawned task.generation false)
      name).Agrees task false
    rw [hthread, ← hnew.1]
    exact Progress.agrees_started task

/-- Whatever goes on in a workshop, and whatever happens between starting a task and waiting for it:
if there is no snapshot the task is not started and nothing changes, otherwise its thread comes to
an end, and the reply to the user who waits is that the task was cancelled, if it was, or that its
worker stopped, if it died, or else the reply that the same request had got when the task was
started. -/
theorem wait_of_spawn (start : Workshop) (name : String) (job : Job) :
    (start.desk.session.current = none →
      start.answer (.spawn name job) = some (start, .failed .noCorpusLoaded)) ∧
    ∀ active, start.desk.session.current = some active →
      ∃ started, start.answer (.spawn name job) =
          some (started, .spawned active.generation false) ∧
        started.desk.session = start.desk.session ∧
        ∀ between later replies, (∀ event ∈ between, event.takes name = false) →
          started.run between = some (later, replies) →
          between.countP (·.moves name) ≤ Strategy.greedy.length + 3 ∧
          ((∃ after reply, later.answer (.wait name) = some (after, reply)) ∨
            ∃ move after, move ≠ .die ∧ later.advance name move = some after) ∧
          ∀ after reply, later.answer (.wait name) = some (after, reply) →
            reply =
              if between.any (·.cancels name) then .failed .cancelled
              else if between.any (·.kills name) then .failed .workerStopped
              else (start.desk.step job.request).2 := by
  refine ⟨fun hc ↦ ?_, fun active hc ↦ ?_⟩
  · have hs : start.desk.session.spawn job = .error .noCorpusLoaded := by
      rw [Session.spawn, Session.snapshot, hc]
      rfl
    rw [answer_of_not_waits (fun _ he ↦ by cases he), Desk.step, hs]
    rfl
  · have hs : start.desk.session.spawn job =
        .ok { job, settings := start.desk.session.settings,
              evaluator := start.desk.session.evaluator, snapshot := active } := by
      rw [Session.spawn, Session.snapshot, hc]
      rfl
    obtain ⟨started, ha, hsame, hruns, hthread⟩ := @runs_of_spawn _ name _ _ hs
    refine ⟨started, ha, hsame, fun between later replies ht hr ↦ ?_⟩
    obtain ⟨hlater, hle⟩ := hruns.run ht hr
    refine ⟨?_, hlater.answered_or_goes_on, fun after reply hw ↦ ?_⟩
    · have hmost := Progress.remaining_started job
      rw [hthread] at hle
      omega
    · rw [hlater.reply_eq hw, Desk.step_request hs]
      simp

/-! ### All tasks -/

/-- Every task is in the hands of a thread that was not killed. -/
def Sound (workshop : Workshop) : Prop :=
  ∀ name task, workshop.desk.tasks.lookup name = some task → workshop.Runs name task false

/-- A workshop without tasks is sound. -/
theorem sound_new (session : Session) : Sound { desk := { session } } := by
  intro name task hk
  cases hk

/-- A workshop stays sound in every event in which no thread dies. -/
theorem Sound.step (h : workshop.Sound) (hd : event.isDeath = false)
    (hs : workshop.step event = some (later, answer?)) : later.Sound := by
  intro name task hk
  cases ht : event.takes name with
  | false =>
    -- the task was kept before, so what is known of it carries over
    rw [lookup_of_step ht hs] at hk
    obtain ⟨old, ho, rfl⟩ := Option.map_eq_some_iff.mp hk
    have hruns := ((h name old ho).step ht hs).1
    rwa [Event.kills, hd, Bool.and_false, Bool.or_false] at hruns
  | true =>
    rcases step_cases hs with ⟨request, reply, rfl, _, ha⟩ | ⟨_, _, _, _, rfl, _⟩
    · cases request with
      | spawn other job =>
        obtain rfl : other = name := beq_iff_eq.mp ht
        -- a task that could not be started leaves the older one in its place
        cases hj : workshop.desk.session.spawn job with
        | ok started =>
          obtain ⟨_, hnew, _, hruns, _⟩ := @runs_of_spawn _ other _ _ hj
          cases ha.symm.trans hnew
          obtain rfl := Option.some.inj (hk.symm.trans hruns.kept)
          exact hruns
        | error error =>
          rw [answer_of_not_waits (fun _ he ↦ by cases he), Desk.step, hj] at ha
          cases ha
          exact h other task hk
      | wait other =>
        obtain rfl : other = name := beq_iff_eq.mp ht
        obtain ⟨rfl, _⟩ := answer_cases ha
        cases hk.symm.trans Desk.lookup_wait
      | _ => cases ht
    · cases ht

/-- A workshop stays sound in every run in which no thread dies. -/
theorem Sound.run (h : workshop.Sound) {events : List Event}
    (hd : ∀ event ∈ events, event.isDeath = false) {replies : List Reply}
    (hr : workshop.run events = some (later, replies)) : later.Sound := by
  induction events generalizing workshop replies with
  | nil =>
    cases hr
    exact h
  | cons event events ih =>
    obtain ⟨next, answer?, rest, hs, hnext, rfl⟩ := exists_of_run_cons hr
    exact ih (h.step (hd event (List.mem_cons_self ..)) hs)
      (fun e he ↦ hd e (List.mem_cons_of_mem _ he)) hnext

/-- The reply of a sound workshop is that of its desk. -/
theorem Sound.answer_eq (h : workshop.Sound) (ha : workshop.answer request = some (later, reply)) :
    workshop.desk.step request = (later.desk, reply) := by
  obtain ⟨rfl, rfl | ⟨other, task, delivered, rfl, hk, hd, rfl⟩⟩ := answer_cases ha
  · rfl
  · rw [(h other task hk).agrees.receive_eq_wait hd, Desk.step, hk]

/-- Without deaths the replies of a workshop are those of its desk, in whichever order requests and
the moves of threads come. -/
theorem Sound.run_eq (h : workshop.Sound) {events : List Event}
    (hd : ∀ event ∈ events, event.isDeath = false) {replies : List Reply}
    (hr : workshop.run events = some (later, replies)) :
    workshop.desk.run (events.filterMap Event.request?) = (later.desk, replies) := by
  induction events generalizing workshop replies with
  | nil =>
    cases hr
    rfl
  | cons event events ih =>
    obtain ⟨next, answer?, rest, hs, hnext, rfl⟩ := exists_of_run_cons hr
    have hrest := ih (h.step (hd event (List.mem_cons_self ..)) hs)
      (fun e he ↦ hd e (List.mem_cons_of_mem _ he)) hnext
    rcases step_cases hs with ⟨request, reply, rfl, rfl, ha⟩ | ⟨_, _, _, _, rfl, rfl, _, _, rfl⟩
    · show workshop.desk.run (request :: events.filterMap Event.request?) =
        (later.desk, reply :: rest)
      rw [Desk.run, h.answer_eq ha]
      simp only [hrest]
    · exact hrest

/-- Runs one after the other are one run. -/
theorem run_append {before after : List Event} {next : Workshop} {first second : List Reply}
    (hb : workshop.run before = some (next, first)) (ha : next.run after = some (later, second)) :
    workshop.run (before ++ after) = some (later, first ++ second) := by
  induction before generalizing workshop first with
  | nil =>
    cases hb
    exact ha
  | cons event before ih =>
    obtain ⟨middle, answer?, rest, hs, hm, rfl⟩ := exists_of_run_cons hb
    rw [List.cons_append, run_cons hs (ih hm), List.append_assoc]

/-- The thread of a task can go on without dying until waiting for the task is answered. -/
theorem Runs.exists_answer (h : workshop.Runs name task killed) :
    ∃ moves next later reply, (∀ event ∈ moves, event.isDeath = false) ∧
      moves.filterMap Event.request? = [] ∧ workshop.run moves = some (next, []) ∧
      next.answer (.wait name) = some (later, reply) := by
  induction hn : (workshop.threads name).remaining using Nat.strong_induction_on
    generalizing workshop task killed with
  | _ n ih =>
    rcases h.answered_or_goes_on with ⟨later, reply, ha⟩ | ⟨move, after, hm, ha⟩
    · exact ⟨[], workshop, later, reply, nofun, rfl, rfl, ha⟩
    · have hs := step_moved ha
      obtain ⟨hafter, hle⟩ := h.step rfl hs
      rw [Event.moves, beq_self_eq_true, if_pos rfl] at hle
      obtain ⟨moves, next, later, reply, hd, hf, hr, ha⟩ := ih _ (by omega) hafter rfl
      refine ⟨.moved name move :: moves, next, later, reply, ?_, hf, run_cons hs hr, ha⟩
      exact List.forall_mem_cons.mpr ⟨beq_eq_false_iff_ne.mpr hm, hd⟩

/-- The threads of a sound workshop can go on without a death until a request is answered. -/
theorem Sound.exists_answer (h : workshop.Sound) (request : Request) :
    ∃ moves next later reply, (∀ event ∈ moves, event.isDeath = false) ∧
      moves.filterMap Event.request? = [] ∧ workshop.run moves = some (next, []) ∧
      next.answer request = some (later, reply) := by
  have hnow (reply : Workshop × Reply) (ha : workshop.answer request = some reply) :
      ∃ moves next later reply, (∀ event ∈ moves, event.isDeath = false) ∧
        moves.filterMap Event.request? = [] ∧ workshop.run moves = some (next, []) ∧
        next.answer request = some (later, reply) :=
    ⟨[], workshop, reply.1, reply.2, nofun, rfl, rfl, ha⟩
  cases request with
  | wait name =>
    cases hk : workshop.desk.tasks.lookup name with
    | some task => exact (h name task hk).exists_answer
    | none => exact hnow (workshop, .unknownName name) (by rw [answer, hk])
  | _ => exact hnow _ rfl

/-- Whatever is asked of a desk can be asked of a workshop, with the same replies. -/
theorem Sound.exists_run (h : workshop.Sound) (requests : List Request) :
    ∃ events later, (∀ event ∈ events, event.isDeath = false) ∧
      events.filterMap Event.request? = requests ∧
      workshop.run events = some (later, (workshop.desk.run requests).2) := by
  -- the replies need no mention in the induction, as they are those of the desk anyway
  have hreplies : ∃ events later replies, (∀ event ∈ events, event.isDeath = false) ∧
      events.filterMap Event.request? = requests ∧
      workshop.run events = some (later, replies) := by
    induction requests generalizing workshop with
    | nil => exact ⟨[], workshop, [], nofun, rfl, rfl⟩
    | cons request requests ih =>
      obtain ⟨moves, next, after, reply, hd, hf, hr, ha⟩ := h.exists_answer request
      have hs := step_asked ha
      have hafter := (h.run hd hr).step rfl hs
      obtain ⟨events, later, replies, hds, hfs, hrs⟩ := ih hafter
      refine ⟨moves ++ .asked request :: events, later, [] ++ ((some reply).toList ++ replies),
        ?_, ?_, run_append hr (run_cons hs hrs)⟩
      · exact List.forall_mem_append.mpr ⟨hd, List.forall_mem_cons.mpr ⟨rfl, hds⟩⟩
      · rw [List.filterMap_append, hf, List.nil_append, ← hfs]
        rfl
  obtain ⟨events, later, replies, hd, hf, hr⟩ := hreplies
  have heq := h.run_eq hd hr
  rw [hf] at heq
  exact ⟨events, later, hd, hf, by rw [heq, hr]⟩

end Workshop

end MethodPrint
