import MethodPrint.Predicate.Basic
import MethodPrint.Predicate.Lexer

/-!
# Reading predicates

A source text is the word `fingerprint` and clauses in braces. A clause is a name and arguments in
parentheses, separated by commas, with an optional comma after the last; every clause may be given
once and in any place. The clauses say what the predicate demands.

`SPEC_FULL.md` 4.5; operations `evaluate` and `apply_clause`.
-/

namespace MethodPrint

/-- An argument of a clause. -/
inductive Argument where
  | string (value : String)
  | number (value : Int64)
  | qualified (owner name : String)
  | null
  deriving DecidableEq

/-- An argument with the place where it starts. -/
structure PlacedArgument where
  argument : Argument
  place : Nat
  deriving DecidableEq

/-- The fault of meeting the next token, or the end of the text at `stop`, where something else
is expected. -/
def faultNext {α : Type} (stop : Nat) (fault : Option Token → SourceFault) :
    List PlacedToken → Except PlacedFault α
  | [] => .error ⟨stop, fault none⟩
  | next :: _ => .error ⟨next.place, fault (some next.token)⟩

/-- Reads an argument from its first token and those after it, and returns the tokens left. -/
def readArgument (stop : Nat) (first : PlacedToken) (rest : List PlacedToken) :
    Except PlacedFault (Argument × List PlacedToken) :=
  match first.token with
  | .string value => .ok (.string value, rest)
  | .number value => .ok (.number value, rest)
  | .identifier "null" => .ok (.null, rest)
  | .identifier owner =>
    match rest with
    | ⟨.dot, _⟩ :: ⟨.identifier name, _⟩ :: rest => .ok (.qualified owner name, rest)
    | ⟨.dot, _⟩ :: rest => faultNext stop .expectedName rest
    | rest => faultNext stop (.expected .dot) rest
  | token => .error ⟨first.place, .expectedArgument (some token)⟩

/-- Meeting the wrong token is no success. -/
theorem faultNext_ne_ok {α : Type} {stop : Nat} {fault : Option Token → SourceFault}
    {tokens : List PlacedToken} {value : α} : faultNext stop fault tokens ≠ .ok value := by
  cases tokens <;> exact nofun

/-- An argument leaves no more tokens than it found. -/
theorem length_of_readArgument {stop : Nat} {first : PlacedToken} {rest left : List PlacedToken}
    {argument : Argument} (h : readArgument stop first rest = .ok (argument, left)) :
    left.length ≤ rest.length := by
  unfold readArgument at h
  split at h
  · cases h
    exact Nat.le_refl _
  · cases h
    exact Nat.le_refl _
  · cases h
    exact Nat.le_refl _
  · split at h
    · cases h
      simp only [List.length_cons]
      omega
    · exact (faultNext_ne_ok h).elim
    · exact (faultNext_ne_ok h).elim
  · cases h

/-- Reads arguments up to the closing parenthesis, and returns the tokens after it. -/
def readArguments (stop : Nat) :
    List PlacedToken → Except PlacedFault (List PlacedArgument × List PlacedToken)
  | [] => .error ⟨stop, .expectedArgument none⟩
  | first :: rest =>
    if first.token = .closeParen then .ok ([], rest)
    else
      match _h : readArgument stop first rest with
      | .error found => .error found
      | .ok (_, []) => .error ⟨stop, .expectedSeparator none⟩
      | .ok (argument, separator :: left) =>
        match separator.token with
        | .comma =>
          (readArguments stop left).map fun (arguments, left) ↦
            (⟨argument, first.place⟩ :: arguments, left)
        | .closeParen => .ok ([⟨argument, first.place⟩], left)
        | token => .error ⟨separator.place, .expectedSeparator (some token)⟩
termination_by tokens => tokens.length
decreasing_by
  have hl := length_of_readArgument _h
  simp only [List.length_cons] at hl ⊢
  omega

/-- Arguments leave fewer tokens than they found. -/
theorem length_of_readArguments {stop : Nat} {tokens left : List PlacedToken}
    {arguments : List PlacedArgument} (h : readArguments stop tokens = .ok (arguments, left)) :
    left.length < tokens.length := by
  fun_induction readArguments stop tokens generalizing arguments left with
  | case1 => cases h
  | case2 first rest => cases h; simp
  | case3 => cases h
  | case4 => cases h
  | case5 first rest _ argument separator left' hr _ ih =>
    have hl := length_of_readArgument hr
    cases hm : readArguments stop left' with
    | error found => rw [hm] at h; cases h
    | ok result =>
      rw [hm] at h
      cases h
      have := ih hm
      simp only [List.length_cons] at hl ⊢
      omega
  | case6 first rest _ argument separator left' hr _ =>
    have hl := length_of_readArgument hr
    cases h
    simp only [List.length_cons] at hl ⊢
    omega
  | case7 => cases h

/-- The strings that the arguments of a clause are. -/
def stringArguments (clause : String) (arguments : List PlacedArgument) :
    Except PlacedFault (List String) :=
  arguments.mapM fun
    | ⟨.string value, _⟩ => .ok value
    | ⟨_, place⟩ => .error ⟨place, .stringsExpected clause⟩

/-- The flag word of the bits that the arguments name. -/
def flagArguments (arguments : List PlacedArgument) : Except PlacedFault UInt32 :=
  arguments.foldlM (fun flags placed ↦
    match placed.argument with
    | .qualified "AccessFlags" name =>
      match AccessFlag.bit? name with
      | some bit => .ok (flags ||| bit)
      | none => .error ⟨placed.place, .unknownFlag name⟩
    | _ => .error ⟨placed.place, .flagsExpected⟩) 0

/-- The numbers that the arguments are. -/
def numberArguments (arguments : List PlacedArgument) : Except PlacedFault (List Int64) :=
  arguments.mapM fun
    | ⟨.number value, _⟩ => .ok value
    | ⟨_, place⟩ => .error ⟨place, .numbersExpected⟩

/-- The opcode names and gaps that the arguments are. -/
def opcodeArguments (arguments : List PlacedArgument) :
    Except PlacedFault (List (Option String)) :=
  arguments.mapM fun
    | ⟨.null, _⟩ => .ok none
    | ⟨.qualified "Opcode" name, _⟩ => .ok (some name)
    | ⟨_, place⟩ => .error ⟨place, .opcodesExpected⟩

namespace Predicate

/-- Adds what a clause demands. Faults of the clause as a whole are placed at its name. -/
def addClause (predicate : Predicate) (place : Nat) (name : String)
    (arguments : List PlacedArgument) : Except PlacedFault Predicate :=
  match name with
  | "accessFlags" =>
    (flagArguments arguments).map fun flags ↦ { predicate with accessFlags := some flags }
  | "returns" =>
    match stringArguments name arguments with
    | .ok [type] => .ok { predicate with returnType := some type }
    | .ok _ => .error ⟨place, .oneTypeExpected⟩
    | .error found => .error found
  | "parameters" =>
    (stringArguments name arguments).map fun types ↦ { predicate with parameters := some types }
  | "strings" =>
    (stringArguments name arguments).map fun values ↦ { predicate with strings := values }
  | "invokes" =>
    (stringArguments name arguments).map fun signatures ↦ { predicate with invokes := signatures }
  | "literals" =>
    (numberArguments arguments).map fun values ↦ { predicate with literals := values }
  | "opcodes" =>
    (opcodeArguments arguments).map fun pattern ↦ { predicate with opcodes := pattern }
  | _ => .error ⟨place, .unknownClause name⟩

/-- Reads clauses up to the closing brace, given the names of those before, and returns the tokens
after it. -/
def readClauses (stop : Nat) (seen : List String) (predicate : Predicate) :
    List PlacedToken → Except PlacedFault (Predicate × List PlacedToken)
  | [] => .error ⟨stop, .expectedClause none⟩
  | ⟨.closeBrace, _⟩ :: rest => .ok (predicate, rest)
  | ⟨.identifier name, place⟩ :: rest =>
    if name ∈ seen then .error ⟨place, .repeatedClause name⟩
    else
      match rest with
      | ⟨.openParen, _⟩ :: rest =>
        match _h : readArguments stop rest with
        | .error found => .error found
        | .ok (arguments, left) =>
          match predicate.addClause place name arguments with
          | .error found => .error found
          | .ok extended => readClauses stop (name :: seen) extended left
      | rest => faultNext stop (.expected .openParen) rest
  | next :: _ => .error ⟨next.place, .expectedClause (some next.token)⟩
termination_by tokens => tokens.length
decreasing_by
  have := length_of_readArguments _h
  simp only [List.length_cons]
  omega

/-- The predicate that the tokens of a whole text say; the text ends at `stop`. -/
def ofTokens (stop : Nat) (tokens : List PlacedToken) : Except PlacedFault Predicate :=
  match tokens with
  | ⟨.identifier "fingerprint", _⟩ :: ⟨.openBrace, _⟩ :: rest =>
    match readClauses stop [] {} rest with
    | .error found => .error found
    | .ok (predicate, []) => .ok predicate
    | .ok (_, next :: _) => .error ⟨next.place, .unexpectedTail next.token⟩
  | ⟨.identifier "fingerprint", _⟩ :: rest => faultNext stop (.expected .openBrace) rest
  | tokens => faultNext stop .expectedFingerprint tokens

/-- The predicate that a text says, or the first fault of the text. -/
def ofText (text : List Char) : Except PlacedFault Predicate :=
  match lex text with
  | .error found => .error found
  | .ok tokens => ofTokens text.length tokens

/-- The predicate that a source text says, or where and how it breaks the rules (`evaluate`). -/
def ofSource (source : String) : Except Diagnostic Predicate :=
  (ofText source.toList).mapError (·.diagnose source.toList)

end Predicate

end MethodPrint
