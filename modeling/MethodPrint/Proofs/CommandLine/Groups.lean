import Mathlib.Data.List.Induction
import MethodPrint.CommandLine.Options

/-!
# Options may stand anywhere

A command line is made of groups: an option with its value if it takes one, or a positional
argument. Whatever the order of the groups, a command line asks for what its positional arguments
in their order and the last value of each option say.
-/

namespace MethodPrint.CommandLine

/-- The argument that an option with a count is. -/
def CountOption.argument : CountOption → String
  | .maxSets => "--max-sets"
  | .opcodes => "--opcodes"
  | .exhaustiveLimit => "--exhaustive-limit"

/-- Arguments that belong together: an option with its value, or a positional argument. -/
inductive Group where
  | json
  | verbose
  | resolve (short : Bool) (source : String)
  | count (option : CountOption) (value : String) (n : Nat) (writes : count? value = some n)
  | positional (argument : String)
    (plain : argument.toList.head? ≠ some '-' ∨ argument = "-")

namespace Group

/-- The arguments of a group. -/
def arguments : Group → List String
  | .json => ["--json"]
  | .verbose => ["--verbose"]
  | .resolve short source => [if short then "-r" else "--resolve", source]
  | .count option value _ _ => [option.argument, value]
  | .positional argument _ => [argument]

/-- Whether a group asks for JSON. -/
def isJson : Group → Bool
  | .json => true
  | _ => false

/-- What a group says to resolve. -/
def source? : Group → Option String
  | .resolve _ source => some source
  | _ => none

/-- The count that a group gives an option. -/
def count? (option : CountOption) : Group → Option Nat
  | .count other _ n _ => if other = option then some n else none
  | _ => none

/-- The positional argument that a group is. -/
def positional? : Group → Option String
  | .positional argument _ => some argument
  | _ => none

end Group

/-- The arguments of groups one after another. -/
def argumentsOf (groups : List Group) : List String := groups.flatMap Group.arguments

/-! ### What groups say together -/

/-- The count that groups give an option, where the last one counts. -/
def lastCount? (option : CountOption) (groups : List Group) : Option Nat :=
  (groups.filterMap (Group.count? option)).getLast?

/-- What groups say: their positional arguments in order, whether JSON is asked for anywhere, and
the last value of each option, or its default. -/
def said (groups : List Group) : Draft where
  positionals := groups.filterMap Group.positional?
  resolveFrom := (groups.filterMap Group.source?).getLast?
  json := groups.any Group.isJson
  settings :=
    { window := (lastCount? .opcodes groups).getD 16
      solver :=
        { maxSets := (lastCount? .maxSets groups).getD 8
          exhaustiveLimit := (lastCount? .exhaustiveLimit groups).getD 24 } }

/-- A draft after one more group. -/
def Draft.take (draft : Draft) : Group → Draft
  | .json => { draft with json := true }
  | .verbose => draft
  | .resolve _ source => { draft with resolveFrom := some source }
  | .count option _ n _ => { draft with settings := option.apply draft.settings n }
  | .positional argument _ => { draft with positionals := draft.positionals ++ [argument] }

/-- One more group counts for the option that it gives, and for nothing else. -/
theorem said_concat (groups : List Group) (group : Group) :
    said (groups ++ [group]) = (said groups).take group := by
  cases group with
  | count option value n writes => cases option <;> simp [said, lastCount?, Draft.take,
      CountOption.apply, Group.count?, Group.source?, Group.positional?, Group.isJson]
  | _ => simp [said, lastCount?, Draft.take, Group.count?, Group.source?, Group.positional?,
      Group.isJson]

/-- Groups that are taken one after another say what they say together. -/
theorem foldl_take (groups : List Group) : groups.foldl Draft.take {} = said groups := by
  induction groups using List.reverseRecOn with
  | nil => rfl
  | append_singleton groups group ih =>
    rw [List.foldl_append, ih, said_concat, List.foldl_cons, List.foldl_nil]

/-! ### Reading groups -/

/-- A positional argument is no option. -/
theorem isOption_eq_false {argument : String}
    (h : argument.toList.head? ≠ some '-' ∨ argument = "-") : isOption argument = false := by
  unfold isOption
  rcases h with h | rfl
  · simp [h]
  · simp

/-- The option of an argument is the one whose argument it is. -/
theorem ofArgument?_argument (option : CountOption) :
    CountOption.ofArgument? option.argument = some option := by
  cases option <;> rfl

/-- An argument that is no option is read as a positional argument. -/
theorem read_of_isOption_eq_false (draft : Draft) {argument : String}
    (h : isOption argument = false) (rest : List String) :
    draft.read (argument :: rest) =
      { draft with positionals := draft.positionals ++ [argument] }.read rest := by
  have hne {other : String} (ho : isOption other = true) : argument ≠ other := by
    rintro rfl
    rw [h] at ho
    cases ho
  have hversion : isVersion argument = false := by
    rw [isVersion, Bool.or_eq_false_iff, beq_eq_false_iff_ne, beq_eq_false_iff_ne]
    exact ⟨hne (by decide), hne (by decide)⟩
  have hresolve : isResolve argument = false := by
    rw [isResolve, Bool.or_eq_false_iff, beq_eq_false_iff_ne, beq_eq_false_iff_ne]
    exact ⟨hne (by decide), hne (by decide)⟩
  have hcount : CountOption.ofArgument? argument = none := by
    unfold CountOption.ofArgument?
    split
    · exact absurd h (by decide)
    · exact absurd h (by decide)
    · exact absurd h (by decide)
    · rfl
  have hjson : argument ≠ "--json" := hne (by decide)
  have hverbose : argument ≠ "--verbose" := hne (by decide)
  rw [Draft.read.eq_def]
  simp only [hversion, hresolve, hcount, hjson, hverbose, h, Bool.false_eq_true, if_false]

/-- A group is read as a whole. -/
theorem read_arguments (draft : Draft) (group : Group) (rest : List String) :
    draft.read (group.arguments ++ rest) = (draft.take group).read rest := by
  cases group with
  | json =>
    rw [Group.arguments, List.singleton_append, Draft.read.eq_def]
    rfl
  | verbose =>
    rw [Group.arguments, List.singleton_append, Draft.read.eq_def]
    rfl
  | resolve short source =>
    rw [Group.arguments, List.cons_append, List.singleton_append, Draft.read.eq_def]
    cases short <;> rfl
  | count option value n writes =>
    have hversion : isVersion option.argument = false := by cases option <;> decide
    have hresolve : isResolve option.argument = false := by cases option <;> decide
    rw [Group.arguments, List.cons_append, List.singleton_append, Draft.read.eq_def]
    simp only [hversion, hresolve, ofArgument?_argument, writes, Bool.false_eq_true, if_false]
    rfl
  | positional argument plain =>
    exact read_of_isOption_eq_false draft (isOption_eq_false plain) rest

/-- Groups are read one after another. -/
theorem read_argumentsOf (draft : Draft) (groups : List Group) (rest : List String) :
    draft.read (argumentsOf groups ++ rest) = (groups.foldl Draft.take draft).read rest := by
  induction groups generalizing draft with
  | nil => rfl
  | cons group groups ih =>
    rw [argumentsOf, List.flatMap_cons, ← argumentsOf, List.append_assoc, read_arguments, ih,
      List.foldl_cons]

/-- A command line of groups asks for what they say together. -/
theorem parse_argumentsOf (groups : List Group) :
    parse (argumentsOf groups) = (said groups).finish := by
  rw [parse, ← List.append_nil (argumentsOf groups), read_argumentsOf, foldl_take]
  rfl

/-- The version may be asked for after any groups. -/
theorem parse_of_isVersion {argument : String} (h : isVersion argument = true)
    (groups : List Group) (rest : List String) :
    parse (argumentsOf groups ++ argument :: rest) = .ok .version := by
  rw [parse, read_argumentsOf, Draft.read.eq_def]
  exact if_pos h

/-! ### What is asked for -/

/-- The options of a run, as some groups say. -/
def optionsOf (groups : List Group) (corpusPath : String) (method : Option MethodId) : Options :=
  { corpusPath, method, resolveFrom := (said groups).resolveFrom, json := (said groups).json,
    settings := (said groups).settings }

/-- What a command line of groups asks for. -/
structure Asked (groups : List Group) (result : Except ArgumentFault Command) : Prop where
  determined : ∀ others, said others = said groups → parse (argumentsOf others) = result
  fingerprint : ∀ corpusPath method, (said groups).positionals = [corpusPath, method] →
    result = .ok (.run (optionsOf groups corpusPath (some ⟨method⟩)))
  resolve : ∀ corpusPath source, (said groups).positionals = [corpusPath] →
    (said groups).resolveFrom = some source → result = .ok (.run (optionsOf groups corpusPath none))
  usage : (said groups).positionals.length < 2 →
    ((said groups).positionals = [] ∨ (said groups).resolveFrom = none) → result = .ok .usage
  unexpected : ∀ first second third more,
    (said groups).positionals = first :: second :: third :: more →
      result = .error (.unexpected third)
  version : ∀ before after, groups = before ++ after → ∀ argument ∈ ["--version", "-v"],
    parse (argumentsOf before ++ argument :: argumentsOf after) = .ok .version

/-- Whatever the groups and their order: the command line asks for what they say together, which is
a run if there are the arguments for one, and for the version if that is asked for among them. -/
theorem asked_parse (groups : List Group) : Asked groups (parse (argumentsOf groups)) where
  determined := by
    intro others h
    rw [parse_argumentsOf, parse_argumentsOf, h]
  fingerprint := by
    intro corpusPath method hp
    rw [parse_argumentsOf, Draft.finish, hp]
    rfl
  resolve := by
    intro corpusPath source hp hs
    rw [parse_argumentsOf, Draft.finish, hp]
    simp only [hs, Option.isSome_some, if_true, optionsOf]
  usage := by
    intro hl hu
    rw [parse_argumentsOf, Draft.finish]
    split
    · rfl
    · next corpusPath hp =>
      rcases hu with hn | hn
      · rw [hp] at hn
        cases hn
      · rw [hn]
        rfl
    · next hp =>
      rw [hp] at hl
      exact absurd hl (by simp)
    · next hp =>
      rw [hp] at hl
      simp only [List.length_cons] at hl
      omega
  unexpected := by
    intro first second third more hp
    rw [parse_argumentsOf, Draft.finish, hp]
  version := by
    intro before after _ argument ha
    apply parse_of_isVersion
    simpa [isVersion] using ha

-- What follows an option that takes a value is its value, whatever it looks like.
example : parse ["-r", "--version", "a.json", "-r", "-"] =
    .ok (.run ⟨"a.json", none, some "-", false, {}⟩) :=
  parse_argumentsOf [.resolve true "--version", .positional "a.json" (.inl (by decide)),
    .resolve true "-"]

end MethodPrint.CommandLine
