import Mathlib.Data.List.Forall2

/-!
# Runs over lists that may fail

A run over a list succeeds if all of its steps do, and fails as one of them does.
-/

namespace MethodPrint

/-- A result with a function applied to it is a success if the result is one. -/
theorem map_eq_ok_iff {α β ε : Type} {result : Except ε α} {f : α → β} {b : β} :
    result.map f = .ok b ↔ ∃ a, result = .ok a ∧ f a = b := by
  cases result with
  | error error => simp [Except.map]
  | ok a => simp [Except.map]

/-- A result with a function applied to it is a failure if the result is the same one. -/
theorem map_eq_error_iff {α β ε : Type} {result : Except ε α} {f : α → β} {error : ε} :
    result.map f = .error error ↔ result = .error error := by
  cases result with
  | error error => simp [Except.map]
  | ok a => simp [Except.map]

/-- A run over a list succeeds if each step of it does. -/
theorem mapM_eq_ok_iff {α β ε : Type} {step : α → Except ε β} {inputs : List α}
    {outputs : List β} :
    inputs.mapM step = .ok outputs ↔
      List.Forall₂ (fun a b ↦ step a = .ok b) inputs outputs := by
  induction inputs generalizing outputs with
  | nil => simp [pure, Except.pure, eq_comm]
  | cons a inputs ih =>
    rw [List.mapM_cons, List.forall₂_cons_left_iff]
    cases ha : step a with
    | error error =>
      constructor
      · exact nofun
      · rintro ⟨_, _, h, _⟩
        cases h
    | ok b =>
      cases hm : inputs.mapM step with
      | error error =>
        constructor
        · exact nofun
        · rintro ⟨_, _, _, h, _⟩
          rw [ih.mpr h] at hm
          cases hm
      | ok rest =>
        constructor
        · intro h
          cases h
          exact ⟨b, rest, rfl, ih.mp hm, rfl⟩
        · rintro ⟨_, others, h, hr, rfl⟩
          cases h
          rw [ih.mpr hr, Except.ok.injEq] at hm
          rw [hm]
          rfl

/-- Steps that agree on all entries of a list make the same run. -/
theorem mapM_congr {α β ε : Type} {f g : α → Except ε β} {inputs : List α}
    (h : ∀ a ∈ inputs, f a = g a) : inputs.mapM f = inputs.mapM g := by
  induction inputs with
  | nil => rfl
  | cons a inputs ih =>
    obtain ⟨ha, h⟩ := List.forall_mem_cons.mp h
    rw [List.mapM_cons, List.mapM_cons, ha, ih h]

/-- No step of a run that succeeds has failed. -/
theorem exists_of_mapM_eq_ok {α β ε : Type} {step : α → Except ε β} {inputs : List α}
    {outputs : List β} (h : inputs.mapM step = .ok outputs) :
    ∀ a ∈ inputs, ∃ b, step a = .ok b := by
  have hsteps := (mapM_eq_ok_iff.mp h).imp fun a b hb ↦
    show (∃ b, step a = .ok b) ∧ step a = .ok b from ⟨⟨b, hb⟩, hb⟩
  exact ((List.forall₂_and_left _ _).mp hsteps).1

/-- A run over a list fails as the first of its steps that does. -/
theorem mapM_eq_error_iff {α β ε : Type} {step : α → Except ε β} {inputs : List α} {error : ε} :
    inputs.mapM step = .error error ↔ ∃ before a after, inputs = before ++ a :: after ∧
      (∀ b ∈ before, ∃ result, step b = .ok result) ∧ step a = .error error := by
  constructor
  · intro h
    induction inputs with
    | nil => cases h
    | cons a inputs ih =>
      rw [List.mapM_cons] at h
      cases ha : step a with
      | error first =>
        rw [ha] at h
        cases h
        exact ⟨[], a, inputs, rfl, nofun, ha⟩
      | ok b =>
        rw [ha] at h
        cases hm : inputs.mapM step with
        | error later =>
          rw [hm] at h
          cases h
          obtain ⟨before, c, after, rfl, hb, hs⟩ := ih hm
          exact ⟨a :: before, c, after, rfl, List.forall_mem_cons.mpr ⟨⟨b, ha⟩, hb⟩, hs⟩
        | ok rest =>
          rw [hm] at h
          cases h
  · rintro ⟨before, a, after, rfl, hb, hs⟩
    induction before with
    | nil =>
      rw [List.nil_append, List.mapM_cons, hs]
      rfl
    | cons first before ih =>
      obtain ⟨⟨result, hr⟩, hb⟩ := List.forall_mem_cons.mp hb
      rw [List.cons_append, List.mapM_cons, hr, ih hb]
      rfl

/-- A run over a list fails as one of its steps does. -/
theorem exists_of_mapM_eq_error {α β ε : Type} {step : α → Except ε β} {inputs : List α}
    {error : ε} (h : inputs.mapM step = .error error) : ∃ a ∈ inputs, step a = .error error := by
  obtain ⟨before, a, after, rfl, _, hs⟩ := mapM_eq_error_iff.mp h
  exact ⟨a, by simp, hs⟩

/-- A run that carries a state fails at the first input that its step refuses. -/
theorem foldlM_eq_error_iff {α σ ε : Type} {step : σ → α → Except ε σ} {state : σ}
    {inputs : List α} {error : ε} :
    inputs.foldlM step state = .error error ↔
      ∃ before a after reached, inputs = before ++ a :: after ∧
        before.foldlM step state = .ok reached ∧ step reached a = .error error := by
  constructor
  · intro h
    induction inputs generalizing state with
    | nil => cases h
    | cons a inputs ih =>
      rw [List.foldlM_cons] at h
      cases hs : step state a with
      | error first =>
        rw [hs] at h
        cases h
        exact ⟨[], a, inputs, state, rfl, rfl, hs⟩
      | ok next =>
        rw [hs] at h
        obtain ⟨before, b, after, reached, rfl, hb, he⟩ := ih h
        refine ⟨a :: before, b, after, reached, rfl, ?_, he⟩
        rw [List.foldlM_cons, hs]
        exact hb
  · rintro ⟨before, a, after, reached, rfl, hb, he⟩
    rw [List.foldlM_append, hb]
    change List.foldlM step reached (a :: after) = _
    rw [List.foldlM_cons, he]
    rfl

end MethodPrint
