import Std.Data.HashSet
import MethodPrint.Search.Basic

/-!
# Solving for distinguishing sets

Gathers the sets that the strategies find for a target, each once, shortest first. A target whose
features all belong to another method as well has none; the error then names its twins.

`SPEC_FULL.md` 4.3, rules 1, 2 and 6; operations `solve_with_cancel` and `finish`.
-/

namespace MethodPrint

/-- How far a search goes. -/
structure SolverConfig where
  /-- The most sets to return; at least one is returned. -/
  maxSets : Nat := 8
  /-- Feature lists up to this length are also searched exhaustively. -/
  exhaustiveLimit : Nat := 24
  /-- The largest set that the exhaustive search tries. -/
  exhaustiveMaxSize : Nat := 3
  deriving DecidableEq

/-- Features that belong to the target and to no other method. No feature can be left out. -/
structure MinimalSet where
  target : MethodId
  /-- The positions of the features in the target's feature list, ascending. -/
  indices : List Nat
  features : List Feature
  strategy : Strategy
  deriving DecidableEq

namespace MinimalSet

/-- The number of features. -/
def size (set : MinimalSet) : Nat := set.features.length

/-- Whether no feature is needed: only in a corpus of one method. -/
def isEmpty (set : MinimalSet) : Bool := set.features.isEmpty

end MinimalSet

/-- A set of positions with the strategy that found it. -/
abbrev Found := List Nat × Strategy

namespace Found

/-- The finds whose sets are neither in `seen` nor among the finds before them. -/
def firsts : Std.HashSet (List Nat) → List Found → List Found
  | _, [] => []
  | seen, found :: rest =>
    if seen.contains found.1 then firsts seen rest
    else found :: firsts (seen.insert found.1) rest

/-- Shorter sets come first, sets of one length in lexicographic order. -/
def precedes (a b : Found) : Bool :=
  a.1.length < b.1.length || (a.1.length == b.1.length && !(b.1 < a.1))

end Found

namespace SolverConfig

/-- The most sets to return: one even if none is asked for. -/
def limit (config : SolverConfig) : Nat := max config.maxSets 1

/-- What the exhaustive search finds, if the target's feature list is short enough for it. -/
def exhaustiveFinds (config : SolverConfig) (search : Search) : List Found :=
  if search.size ≤ config.exhaustiveLimit then
    (search.exhaustive config.exhaustiveMaxSize config.limit).map (·, .exhaustive)
  else []

/-- What all strategies find, each set once, in order and no more than asked for. -/
def finds (config : SolverConfig) (search : Search) : List Found :=
  let greedy := Strategy.greedy.map fun strategy ↦ (search.minimal strategy, strategy)
  ((Found.firsts ∅ (config.exhaustiveFinds search ++ greedy)).mergeSort Found.precedes).take
    config.limit

end SolverConfig

/-- The set of a target's features at some positions (`finish`). -/
def MinimalSet.ofIndices (target : MethodId) (features : List Feature) (found : Found) :
    MinimalSet :=
  { target
    indices := found.1
    features := found.1.filterMap (features[·]?)
    strategy := found.2 }

namespace Index

/-- The sets of features that tell a method from all others, shortest first (`solve_with_cancel`). A
search that has been abandoned stops before its first greedy strategy; one in a corpus of a single
method has nothing to search. -/
def solve (index : Index) (config : SolverConfig) (target : MethodId) (cancelled : Bool) :
    Except FingerprintError (List MinimalSet) :=
  match index.position? target, index.features? target with
  | some position, some features =>
    let search := Search.ofFeatures index features
    let full := search.ambiguity search.all
    if full.size > 1 then
      .error (.noDistinguishingSet target (index.ids (full.toList.filter (· != position))))
    else if index.size = 1 then
      .ok [MinimalSet.ofIndices target features ([], .exhaustive)]
    else if cancelled then
      .error .cancelled
    else
      .ok ((config.finds search).map (MinimalSet.ofIndices target features))
  | _, _ => .error (.unknownMethod target)

end Index

end MethodPrint
