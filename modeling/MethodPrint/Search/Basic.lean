import MethodPrint.Index
import MethodPrint.Search.Combination

/-!
# Searching distinguishing sets

A search looks for small sets of a target's features that no other method carries together. A set
is given by the positions of its features in the target's feature list. Two ways lead to such
sets: greedy choice in some ranking followed by dropping what is not needed, and trying all sets
of the smallest size that has any.

`SPEC_FULL.md` 4.3, rules 3 to 5; operations `is_unique`, `ranking`, `greedy`, `shrink` and
`exhaustive` of the solver.
-/

namespace MethodPrint

/-- How a distinguishing set was found. -/
inductive Strategy where
  /-- Trying all small sets. -/
  | exhaustive
  /-- Greedy choice, rarest feature first. -/
  | rarityAscending
  /-- Greedy choice in the order of extraction. -/
  | extractionOrder
  /-- Greedy choice, most common feature first. -/
  | rarityDescending
  deriving DecidableEq

namespace Strategy

/-- All strategies. -/
def all : List Strategy := [.exhaustive, .rarityAscending, .extractionOrder, .rarityDescending]

/-- The greedy strategies in the order in which they are tried. -/
def greedy : List Strategy := [.rarityAscending, .extractionOrder, .rarityDescending]

/-- The word for a strategy in stored reports. -/
def name : Strategy → String
  | .exhaustive => "exhaustive"
  | .rarityAscending => "rarity_ascending"
  | .extractionOrder => "extraction_order"
  | .rarityDescending => "rarity_descending"

/-- The word for a strategy in report texts. -/
def title : Strategy → String
  | .exhaustive => "Exhaustive"
  | .rarityAscending => "RarityAscending"
  | .extractionOrder => "ExtractionOrder"
  | .rarityDescending => "RarityDescending"

/-- The strategy that a word of a stored report stands for. -/
def ofName? (name : String) : Option Strategy := all.find? (·.name == name)

/-- A strategy is found under its own name. -/
theorem ofName?_name (strategy : Strategy) : ofName? strategy.name = some strategy := by
  cases strategy <;> decide

end Strategy

/-- What a search for one target works on: the posting lists of the target's features in order,
and the size of the corpus. -/
structure Search where
  lists : Array Posting
  corpusSize : Nat

namespace Search

/-- The search for a method with the given features. -/
def ofFeatures (index : Index) (features : List Feature) : Search :=
  { lists := (features.map index.lookup).toArray, corpusSize := index.size }

/-- The number of features to choose from. -/
def size (search : Search) : Nat := search.lists.size

/-- The posting list of the feature at a position. -/
def list (search : Search) (position : Nat) : Posting := search.lists[position]?.getD #[]

/-- The positions of all features. -/
def all (search : Search) : List Nat := List.range search.size

/-- The methods that carry all features of a set. -/
def ambiguity (search : Search) (set : List Nat) : Posting :=
  (Posting.intersectAll? (set.map search.list)).getD (Posting.all search.corpusSize)

/-- Narrows an intersection that always holds the target: nothing is left to do once it holds one
method. -/
def narrowToOne (running list : Posting) : Posting :=
  if running.size ≤ 1 then running else running.intersect list

/-- Whether the features of a set belong to the target alone (`is_unique`). -/
def isUnique (search : Search) (set : List Nat) : Bool :=
  match Posting.shortestFirst (set.map search.list) with
  | [] => search.corpusSize == 1
  | first :: rest => (rest.foldl narrowToOne first).size == 1

/-- The positions in the order in which a strategy visits them; equally common features keep the
order of extraction. -/
def ranking (search : Search) : Strategy → List Nat
  | .rarityAscending =>
    search.all.mergeSort fun i j ↦ (search.list i).size ≤ (search.list j).size
  | .rarityDescending =>
    search.all.mergeSort fun i j ↦ (search.list j).size ≤ (search.list i).size
  | .extractionOrder | .exhaustive => search.all

/-- Chooses features that narrow a running intersection until one method is left. -/
def greedyFrom (search : Search) : Option Posting → List Nat → List Nat
  | _, [] => []
  | none, i :: order =>
    let next := search.list i
    i :: if next.size = 1 then [] else greedyFrom search (some next) order
  | some running, i :: order =>
    let next := running.intersect (search.list i)
    if next.size = running.size then greedyFrom search (some running) order
    else i :: if next.size = 1 then [] else greedyFrom search (some next) order

/-- The features that a greedy choice takes in some order. -/
def greedy (search : Search) (order : List Nat) : List Nat := search.greedyFrom none order

/-- One pass of `shrink`: each of the first `count` entries, the last of them first, is dropped if
the rest still belongs to the target alone. -/
def dropPass (search : Search) : Nat → List Nat → List Nat
  | 0, chosen => chosen
  | place + 1, chosen =>
    let candidate := chosen.eraseIdx place
    dropPass search place (if search.isUnique candidate then candidate else chosen)

/-- Passes of `shrink` until one drops nothing. -/
def dropAll (search : Search) (chosen : List Nat) : List Nat :=
  let kept := search.dropPass chosen.length chosen
  if kept.length < chosen.length then dropAll search kept else kept
termination_by chosen.length

/-- The set without the features that are not needed, in ascending order (`shrink`). -/
def shrink (search : Search) (chosen : List Nat) : List Nat :=
  (search.dropAll chosen).mergeSort (· ≤ ·)

/-- The sets that belong to the target alone, of the smallest size that has any and is at most
`maxSize`, in lexicographic order, but no more than `limit` of them. -/
def exhaustive (search : Search) (maxSize limit : Nat) : List (List Nat) :=
  ((List.range' 1 (min maxSize search.size)).findSome? fun size ↦
    match Combination.collect search.size search.isUnique limit (Combination.first size) with
    | [] => none
    | found => some found).getD []

/-- The set that a greedy strategy finds. -/
def minimal (search : Search) (strategy : Strategy) : List Nat :=
  search.shrink (search.greedy (search.ranking strategy))

end Search

end MethodPrint
