import MethodPrint.Proofs.Predicate.Spelling

/-!
# Lexing what was spelled

The lexer reads a text piece by piece: it passes over trivia, reads one token and goes on after
it. A text that spells some tokens is therefore read as these tokens wherever it stands, provided
that the text after it does not continue its last token.
-/

namespace MethodPrint

/-! ### Steps of the lexer -/

/-- Nothing but trivia has no tokens. -/
theorem lexFrom_of_drop_eq_nil {text : List Char}
    (h : text.drop (triviaLength false text) = []) (place : Nat) : lexFrom place text = .ok [] := by
  rw [lexFrom]
  split
  · rfl
  · next first rest hc =>
    rw [h] at hc
    cases hc

/-- After trivia one token is read, and the lexer goes on after it. -/
theorem lexFrom_of_drop_eq_cons {text rest : List Char} {first : Char}
    (h : text.drop (triviaLength false text) = first :: rest) {token : Token} {n : Nat}
    (ht : lexToken first rest = .ok (token, n)) (place : Nat) :
    lexFrom place text =
      (lexFrom (place + triviaLength false text + 1 + n) (rest.drop n)).map fun tokens ↦
        ⟨token, place + triviaLength false text⟩ :: tokens := by
  rw [lexFrom]
  split
  · next hc =>
    rw [h] at hc
    cases hc
  · next first' rest' hc =>
    rw [h] at hc
    cases hc
    simp only [ht]

/-- A fault after trivia is the fault of the text. -/
theorem lexFrom_of_drop_eq_error {text rest : List Char} {first : Char}
    (h : text.drop (triviaLength false text) = first :: rest) {found : PlacedFault}
    (ht : lexToken first rest = .error found) (place : Nat) :
    lexFrom place text =
      .error { found with place := place + triviaLength false text + found.place } := by
  rw [lexFrom]
  split
  · next hc =>
    rw [h] at hc
    cases hc
  · next first' rest' hc =>
    rw [h] at hc
    cases hc
    simp only [ht]

/-- Trivia in front of a text moves its tokens. -/
theorem lexFrom_append_of_trivia {trivia text : List Char}
    (h : triviaLength false (trivia ++ text) = trivia.length + triviaLength false text)
    (place : Nat) : lexFrom place (trivia ++ text) = lexFrom (place + trivia.length) text := by
  have hd : (trivia ++ text).drop (triviaLength false (trivia ++ text)) =
      text.drop (triviaLength false text) := by
    rw [h, ← List.drop_drop, List.drop_left]
  cases ht : text.drop (triviaLength false text) with
  | nil => rw [lexFrom_of_drop_eq_nil ht, lexFrom_of_drop_eq_nil (hd.trans ht)]
  | cons first rest =>
    cases hf : lexToken first rest with
    | error found =>
      rw [lexFrom_of_drop_eq_error ht hf, lexFrom_of_drop_eq_error (hd.trans ht) hf, h,
        ← Nat.add_assoc]
    | ok result =>
      rw [lexFrom_of_drop_eq_cons ht hf, lexFrom_of_drop_eq_cons (hd.trans ht) hf, h,
        ← Nat.add_assoc]

/-! ### Texts and their tokens -/

/-- A text is read as some tokens, wherever it starts. -/
def Lexes (text : List Char) (tokens : List Token) : Prop :=
  ∀ place, ∃ placed, lexFrom place text = .ok placed ∧ placed.map (·.token) = tokens

/-- The empty text has no tokens. -/
theorem lexes_nil : Lexes [] [] := fun place ↦ ⟨[], lexFrom_of_drop_eq_nil rfl place, rfl⟩

/-- A blank in front changes no token. -/
theorem Lexes.blank {text : List Char} {tokens : List Token} (h : Lexes text tokens) {c : Char}
    (hc : Text.isBlank c = true) : Lexes (c :: text) tokens := by
  intro place
  have ht : triviaLength false ([c] ++ text) = [c].length + triviaLength false text := by
    rw [List.singleton_append, triviaLength, if_pos hc]
    rfl
  obtain ⟨placed, hp, hm⟩ := h (place + 1)
  exact ⟨placed, (lexFrom_append_of_trivia ht place).trans hp, hm⟩

/-- What is read as a token is placed where it starts, and the lexer goes on after it. -/
theorem Reads.lexFrom_append {text rest : List Char} {token : Token} (hr : Reads text rest token)
    (place : Nat) :
    lexFrom place (text ++ rest) =
      (lexFrom (place + text.length) rest).map fun tokens ↦ ⟨token, place⟩ :: tokens := by
  obtain ⟨first, more, rfl, hb, hs, ht⟩ := hr
  have h0 : triviaLength false (first :: (more ++ rest)) = 0 := by
    rw [triviaLength, hb]
    simp [hs]
  have hd : (first :: (more ++ rest)).drop (triviaLength false (first :: (more ++ rest))) =
      first :: (more ++ rest) := by rw [h0, List.drop_zero]
  rw [List.cons_append, lexFrom_of_drop_eq_cons hd ht, h0, List.drop_left, List.length_cons,
    Nat.add_zero, Nat.add_assoc, Nat.add_comm 1]

/-- What is read as a token comes first. -/
theorem Reads.lexes {text rest : List Char} {token : Token} (hr : Reads text rest token)
    {tokens : List Token} (h : Lexes rest tokens) : Lexes (text ++ rest) (token :: tokens) := by
  intro place
  obtain ⟨placed, hp, hm⟩ := h (place + text.length)
  refine ⟨⟨token, place⟩ :: placed, ?_, by rw [List.map_cons, hm]⟩
  rw [hr.lexFrom_append, hp]
  rfl

/-! ### Spelling -/

/-- A text spells some tokens if it is read as them wherever it ends. -/
def Spells (text : List Char) (tokens : List Token) : Prop :=
  ∀ rest more, Ends rest → Lexes rest more → Lexes (text ++ rest) (tokens ++ more)

/-- A text that starts with a mark ends what is before it. -/
theorem ends_cons {c : Char} (hc : Text.isIdentifierRest c = false) (rest : List Char) :
    Ends (c :: rest) := by
  intro d hd
  obtain rfl : c = d := Option.some.inj hd
  exact hc

/-- The empty text spells no tokens. -/
theorem spells_nil : Spells [] [] := fun _ _ _ h ↦ h

/-- What is read as a token wherever it ends spells this token. -/
theorem spells_of_reads {text : List Char} {token : Token}
    (h : ∀ rest, Ends rest → Reads text rest token) : Spells text [token] :=
  fun rest _ hr hm ↦ (h rest hr).lexes hm

/-- A text after one that it ends spells the tokens of both. -/
theorem Spells.append {a b : List Char} {s t : List Token} (ha : Spells a s) (hb : Spells b t)
    (he : ∀ rest, Ends rest → Ends (b ++ rest)) : Spells (a ++ b) (s ++ t) := by
  intro rest more hr hm
  rw [List.append_assoc, List.append_assoc]
  exact ha _ _ (he rest hr) (hb rest more hr hm)

/-- A blank in front spells nothing. -/
theorem Spells.blank {text : List Char} {tokens : List Token} (h : Spells text tokens) {c : Char}
    (hc : Text.isBlank c = true) : Spells (c :: text) tokens :=
  fun rest more hr hm ↦ (h rest more hr hm).blank hc

/-- A mark in front spells its token. -/
theorem Spells.mark {text : List Char} {tokens : List Token} (h : Spells text tokens) {c : Char}
    {token : Token} (hc : ∀ rest, lexToken c rest = .ok (token, 0))
    (hb : Text.isBlank c = false) (hs : c ≠ '/') : Spells (c :: text) (token :: tokens) := by
  intro rest more hr hm
  have hread : Reads [c] (text ++ rest) token := ⟨c, [], rfl, hb, hs, hc _⟩
  exact hread.lexes (h rest more hr hm)

end MethodPrint
