import MethodPrint.Proofs.Predicate.Lexing

/-!
# Printing tokens

Tokens are printed one after another with trivia between them: blanks and comments in any mixture.
However they are printed, the lexer reads the same tokens, each at the place where it was printed,
and nothing after them.
-/

namespace MethodPrint

/-! ### Trivia -/

/-- What a comment says: anything within a line. -/
abbrev CommentText := { text : List Char // '\n' ∉ text }

/-- A blank, or a comment with the line break that ends it. -/
inductive Trivium where
  | blank (c : { c : Char // Text.isBlank c = true })
  | comment (text : CommentText)

/-- The characters of a blank or a comment. -/
def Trivium.text : Trivium → List Char
  | .blank c => [c.1]
  | .comment text => '/' :: '/' :: (text.1 ++ ['\n'])

/-- The characters of blanks and comments in a row. -/
def triviaText (trivia : List Trivium) : List Char := trivia.flatMap Trivium.text

/-- The characters of a comment at the end of a source text, which no line break has to end. -/
def openCommentText : Option CommentText → List Char
  | some text => '/' :: '/' :: text.1
  | none => []

private theorem triviaLength_true_append {text : List Char} (ht : '\n' ∉ text)
    (rest : List Char) :
    triviaLength true (text ++ rest) = text.length + triviaLength true rest := by
  induction text with
  | nil => simp
  | cons c text ih =>
    rw [List.mem_cons, not_or] at ht
    have hc : (c != '\n') = true := by simpa using Ne.symm ht.1
    rw [List.cons_append, triviaLength, hc, ih ht.2, List.length_cons]
    omega

private theorem triviaLength_slashes (rest : List Char) :
    triviaLength false ('/' :: '/' :: rest) = 2 + triviaLength true rest := by
  have hb : Text.isBlank '/' = false := by decide
  simp only [triviaLength, hb, Bool.false_eq_true, if_false, List.head?_cons, and_self, if_true]
  rw [show ('/' != '\n') = true from rfl, ← Nat.add_assoc]

private theorem triviaLength_trivium (trivium : Trivium) (rest : List Char) :
    triviaLength false (trivium.text ++ rest) =
      trivium.text.length + triviaLength false rest := by
  cases trivium with
  | blank c =>
    rw [Trivium.text, List.singleton_append, triviaLength, if_pos c.2, List.length_singleton]
  | comment text =>
    have hl : triviaLength true ('\n' :: rest) = 1 + triviaLength false rest := rfl
    simp only [Trivium.text, List.cons_append, List.append_assoc, List.nil_append,
      triviaLength_slashes, triviaLength_true_append text.2, hl, List.length_cons,
      List.length_append, List.length_nil]
    omega

/-- Trivia is passed over as a whole. -/
theorem triviaLength_triviaText (trivia : List Trivium) (rest : List Char) :
    triviaLength false (triviaText trivia ++ rest) =
      (triviaText trivia).length + triviaLength false rest := by
  induction trivia with
  | nil => simp [triviaText]
  | cons trivium trivia ih =>
    rw [triviaText, List.flatMap_cons, ← triviaText, List.append_assoc, triviaLength_trivium, ih,
      List.length_append, Nat.add_assoc]

/-- A comment at the end of a source text is passed over to the end. -/
theorem drop_triviaLength_openCommentText (comment : Option CommentText) :
    (openCommentText comment).drop (triviaLength false (openCommentText comment)) = [] := by
  cases comment with
  | none => rfl
  | some text =>
    have hl := triviaLength_true_append text.2 []
    rw [List.append_nil, triviaLength, Nat.add_zero] at hl
    apply List.drop_eq_nil_of_le
    rw [openCommentText, triviaLength_slashes, hl, List.length_cons, List.length_cons]
    omega

/-- Trivia ends what is before it. -/
theorem ends_triviaText {trivia : List Trivium} (h : trivia ≠ []) (rest : List Char) :
    Ends (triviaText trivia ++ rest) := by
  cases trivia with
  | nil => exact absurd rfl h
  | cons trivium trivia =>
    cases trivium with
    | blank c =>
      apply ends_cons
      rw [← Bool.not_eq_true]
      intro hr
      have hb := isBlank_of_isIdentifierRest hr
      rw [c.2] at hb
      cases hb
    | comment text => exact ends_cons (by decide) _

/-- So does a comment at the end of a source text, and the end itself. -/
theorem ends_openCommentText (comment : Option CommentText) : Ends (openCommentText comment) := by
  cases comment with
  | none => exact nofun
  | some text => exact ends_cons (by decide) _

/-! ### Lexemes -/

/-- The marks of the predicate language and their tokens. -/
def marks : List (Char × Token) :=
  [('(', .openParen), (')', .closeParen), ('{', .openBrace), ('}', .closeBrace), (',', .comma),
    ('.', .dot)]

/-- A token as it is printed: a number may have its suffix or not. -/
inductive Lexeme where
  | identifier (name : { name : String // Text.isIdentifier name.toList = true })
  | string (value : String)
  | number (value : Int64) (suffixed : Bool)
  | mark (m : { m : Char × Token // m ∈ marks })

/-- The token that is printed. -/
def Lexeme.token : Lexeme → Token
  | .identifier name => .identifier name.1
  | .string value => .string value
  | .number value _ => .number value
  | .mark m => m.1.2

/-- The characters that are printed for a token. -/
def Lexeme.text : Lexeme → List Char
  | .identifier name => name.1.toList
  | .string value => (quote value).toList
  | .number value suffixed => (toString value.toInt).toList ++ if suffixed then ['L'] else []
  | .mark m => [m.1.1]

private theorem reads_of_mem_marks {m : Char × Token} (h : m ∈ marks) (rest : List Char) :
    Reads [m.1] rest m.2 := by
  simp only [marks, List.mem_cons, List.not_mem_nil, or_false] at h
  rcases h with rfl | rfl | rfl | rfl | rfl | rfl
  all_goals exact ⟨_, [], rfl, by decide, by decide, rfl⟩

/-- What is printed for a token is read as this token where the text ends it. -/
theorem Lexeme.reads (lexeme : Lexeme) {rest : List Char} (hr : Ends rest) :
    Reads lexeme.text rest lexeme.token := by
  cases lexeme with
  | identifier name => exact reads_identifier name.2 hr
  | string value => exact reads_quote value rest
  | number value suffixed =>
    apply reads_number_append
    cases suffixed with
    | false => exact .inr ⟨rfl, hr⟩
    | true => exact .inl rfl
  | mark m => exact reads_of_mem_marks m.2 rest

/-! ### Scripts -/

/-- Tokens with the trivia after each stand apart: there is some between any two of them. -/
def Apart (lexemes : List (Lexeme × List Trivium)) : Prop :=
  ∀ printed ∈ lexemes.dropLast, printed.2 ≠ []

/-- A source text as it is printed: trivia in front, tokens that stand apart, and possibly a comment
that the end of the text ends. -/
structure Script where
  opening : List Trivium
  lexemes : List (Lexeme × List Trivium)
  closing : Option CommentText
  apart : Apart lexemes

/-- The characters of tokens and the trivia after each. -/
def lexemesText (lexemes : List (Lexeme × List Trivium)) : List Char :=
  lexemes.flatMap fun (lexeme, gap) ↦ lexeme.text ++ triviaText gap

/-- The places of tokens that are printed from a place on. -/
def placedFrom (place : Nat) : List (Lexeme × List Trivium) → List PlacedToken
  | [] => []
  | (lexeme, gap) :: lexemes =>
    ⟨lexeme.token, place⟩ ::
      placedFrom (place + lexeme.text.length + (triviaText gap).length) lexemes

/-- The characters of a script. -/
def Script.text (script : Script) : List Char :=
  triviaText script.opening ++ (lexemesText script.lexemes ++ openCommentText script.closing)

/-- The tokens of a script, each at the place of its first character. -/
def Script.placed (script : Script) : List PlacedToken :=
  placedFrom (triviaText script.opening).length script.lexemes

/-- The tokens of a script. -/
def Script.tokens (script : Script) : List Token := script.lexemes.map (·.1.token)

/-- Places do not change what the tokens are. -/
theorem map_token_placedFrom (place : Nat) (lexemes : List (Lexeme × List Trivium)) :
    (placedFrom place lexemes).map (·.token) = lexemes.map (·.1.token) := by
  induction lexemes generalizing place with
  | nil => rfl
  | cons printed lexemes ih => rw [placedFrom, List.map_cons, List.map_cons, ih]

namespace Apart

variable {lexeme : Lexeme} {gap : List Trivium} {lexemes : List (Lexeme × List Trivium)}

/-- The tokens after the first stand apart like all of them. -/
theorem tail (h : Apart ((lexeme, gap) :: lexemes)) : Apart lexemes := by
  intro printed hp
  cases lexemes with
  | nil => cases hp
  | cons next lexemes => exact h printed (List.mem_cons_of_mem _ hp)

/-- What is printed after a token ends it: the trivia that holds it apart from its neighbour, and
after the last token the end of the text. -/
theorem ends (h : Apart ((lexeme, gap) :: lexemes)) (closing : Option CommentText) :
    Ends (triviaText gap ++ (lexemesText lexemes ++ openCommentText closing)) := by
  by_cases hg : gap = []
  · subst hg
    cases lexemes with
    | nil => exact ends_openCommentText closing
    | cons next lexemes => exact absurd rfl (h _ List.mem_cons_self)
  · exact ends_triviaText hg _

/-- Tokens that stand apart are read one after another, whatever place the first has. -/
theorem lexFrom_lexemesText (h : Apart lexemes) (closing : Option CommentText) (place : Nat) :
    lexFrom place (lexemesText lexemes ++ openCommentText closing) =
      .ok (placedFrom place lexemes) := by
  induction lexemes generalizing place with
  | nil => exact lexFrom_of_drop_eq_nil (drop_triviaLength_openCommentText closing) place
  | cons printed lexemes ih =>
    obtain ⟨lexeme, gap⟩ := printed
    have hr := lexeme.reads (h.ends closing)
    rw [lexemesText, List.flatMap_cons, ← lexemesText, List.append_assoc, List.append_assoc,
      hr.lexFrom_append, lexFrom_append_of_trivia (triviaLength_triviaText _ _), ih h.tail]
    rfl

end Apart

/-- However tokens are printed, with whatever trivia, they are read back: exactly they, each at
the place where it was printed. No control character is printed in a string. -/
theorem lex_script (script : Script) :
    lex script.text = .ok script.placed ∧
      script.placed.map (·.token) = script.tokens ∧
      ∀ value, (quote value).toList.any Text.isControl = false := by
  refine ⟨?_, map_token_placedFrom _ _, any_isControl_quote⟩
  rw [lex, Script.text, lexFrom_append_of_trivia (triviaLength_triviaText _ _),
    script.apart.lexFrom_lexemesText, Nat.zero_add, Script.placed]

-- Slashes and escapes in a string are no trivia, and the last comment needs no line break.
example : lex "//a\n-5L \"//\\u0001\"//b".toList =
    .ok [⟨.number (-5), 4⟩, ⟨.string "//\x01", 8⟩] := by cbv

end MethodPrint
