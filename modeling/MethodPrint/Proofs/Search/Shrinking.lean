import MethodPrint.Proofs.Search.Smallest

/-!
# Shrinking a set

Dropping goes through a set from its last place to its first, pass after pass, until a pass drops
nothing. A feature that is kept was needed next to more features than are left in the end, so that
it is needed still: the second pass never drops anything. What shrinking leaves of a set that
belongs to the target alone is a minimal one, and shrinking leaves a minimal set as it is.
-/

namespace MethodPrint

namespace Search

variable {search : Search} {target : Nat}

/-! ### Checked accesses -/

/-- The quick test of a set, if the search has a list for each of its positions. -/
def isUnique? (search : Search) (set : List Nat) : Option Bool :=
  if ∀ i ∈ set, i < search.size then some (search.isUnique set) else none

/-- One pass of dropping, none if it tries a place that the set does not have or reads a list that
the search does not have. -/
def dropPass? (search : Search) : Nat → List Nat → Option (List Nat)
  | 0, chosen => some chosen
  | place + 1, chosen => do
    let candidate ← if place < chosen.length then some (chosen.eraseIdx place) else none
    let unique ← search.isUnique? candidate
    dropPass? search place (if unique then candidate else chosen)

/-- Passes of dropping until one drops nothing, none if an access fails or `limit` passes do not
suffice. -/
def dropAll? (search : Search) : Nat → List Nat → Option (List Nat)
  | 0, _ => none
  | limit + 1, chosen => do
    let kept ← search.dropPass? chosen.length chosen
    if kept.length < chosen.length then dropAll? search limit kept else some kept

/-- No access of a pass fails: a drop at a later place leaves the earlier places. -/
theorem dropPass?_eq {count : Nat} {chosen : List Nat} (hs : ∀ i ∈ chosen, i < search.size)
    (hl : count ≤ chosen.length) :
    search.dropPass? count chosen = some (search.dropPass count chosen) := by
  induction count generalizing chosen with
  | zero => rfl
  | succ place ih =>
    have hc : ∀ i ∈ chosen.eraseIdx place, i < search.size :=
      fun i hm ↦ hs i (List.mem_of_mem_eraseIdx hm)
    have hlc : place ≤ (chosen.eraseIdx place).length := by
      rw [List.length_eraseIdx_of_lt hl]
      omega
    have hp : place < chosen.length := hl
    have hu : search.isUnique? (chosen.eraseIdx place) =
        some (search.isUnique (chosen.eraseIdx place)) := if_pos hc
    simp only [dropPass?, dropPass, if_pos hp, Option.bind_eq_bind, Option.bind_some, hu]
    split
    · exact ih hc hlc
    · exact ih hs (Nat.le_of_succ_le hl)

/-- Two passes suffice, and no access fails on the way. -/
theorem dropAll?_eq (h : search.Holds target) {chosen : List Nat}
    (hs : ∀ i ∈ chosen, i < search.size) {limit : Nat} (hl : 2 ≤ limit) :
    search.dropAll? limit chosen = some (search.dropAll chosen) := by
  obtain ⟨more, rfl⟩ : ∃ more, limit = more + 1 + 1 := ⟨limit - 2, by omega⟩
  have hk : ∀ i ∈ search.dropPass chosen.length chosen, i < search.size :=
    fun i hm ↦ hs i ((search.dropPass_sublist _ _).subset hm)
  rw [dropAll_eq h hs, dropAll?, dropPass?_eq hs (Nat.le_refl _), Option.bind_eq_bind,
    Option.bind_some]
  split
  -- the second pass drops nothing and is the last
  · rw [dropAll?, dropPass?_eq hk (Nat.le_refl _), Option.bind_eq_bind, Option.bind_some,
      dropPass_dropPass h hs, if_neg (Nat.lt_irrefl _)]
  · rfl

/-- How shrinking comes to its end: after one pass nothing is left to drop. -/
structure Settles (search : Search) (chosen : List Nat) : Prop where
  /-- Two passes suffice, and no access fails on the way. -/
  dropAll?_eq : ∀ limit, 2 ≤ limit → search.dropAll? limit chosen = some (search.dropAll chosen)
  dropPass_eq : let kept := search.dropPass chosen.length chosen
    search.dropPass kept.length kept = kept
  shrink_eq : search.shrink chosen = (search.dropPass chosen.length chosen).mergeSort (· ≤ ·)
  shrink_shrink : search.shrink (search.shrink chosen) = search.shrink chosen

/-- Shrinking settles on every set that isolates the target. -/
theorem settles (h : search.Holds target) {chosen : List Nat} (hn : chosen.Nodup)
    (hs : ∀ i ∈ chosen, i < search.size) (hi : search.Isolates target chosen) :
    search.Settles chosen where
  dropAll?_eq _ hl := dropAll?_eq h hs hl
  dropPass_eq := dropPass_dropPass h hs
  shrink_eq := by rw [shrink, dropAll_eq h hs]
  shrink_shrink := (minimal_shrink h hn hs hi).shrink_eq h

end Search

namespace Index

/-- What shrinking leaves of some positions in the features of the method at a position. -/
structure Shrunk (index : Index) (position : Nat) (features : List Feature)
    (chosen kept : List Nat) : Prop where
  singlesOut : index.SinglesOut position features kept
  subset : kept ⊆ chosen
  needed : ∀ i ∈ kept, index.ambiguity ((kept.erase i).filterMap (features[·]?)) ≠ #[position]

/-- Whatever the members and the target: shrinking positions, in any order, the features at which
belong to the target alone leaves needed ones that single it out, and it takes one pass. -/
theorem shrunk_of_build {corpusId : String} {window : Nat} {members : List Member}
    {index : Index} (hb : build corpusId window members = .ok index) {target : MethodId}
    {position : Nat} (hp : index.position? target = some position) {features : List Feature}
    (hf : index.features? target = some features) {chosen : List Nat} (hn : chosen.Nodup)
    (hr : ∀ i ∈ chosen, i < features.length)
    (ha : index.ambiguity (chosen.filterMap (features[·]?)) = #[position]) :
    index.Shrunk position features chosen ((Search.ofFeatures index features).shrink chosen) ∧
      (Search.ofFeatures index features).Settles chosen := by
  have h := represents_of_build hb
  obtain ⟨place, entry, hplace, he, rfl, rfl⟩ := h.features?_eq_some_iff.mp hf
  obtain rfl : place = position := Option.some.inj (hplace.symm.trans hp)
  have hh := h.holds_ofFeatures he
  have hi := (h.isolates_iff he hr).mpr ha
  have hs : ∀ i ∈ chosen, i < (Search.ofFeatures index entry.features).size := by
    rwa [Search.size_ofFeatures]
  have hm := Search.minimal_shrink hh hn hs hi
  refine ⟨⟨?_, ?_, ?_⟩, Search.settles hh hn hs hi⟩
  · exact (h.singlesOut_iff he).mpr ⟨⟨hm.ascending, hm.inRange⟩, hm.isolates⟩
  · intro i hk
    rw [Search.shrink, Search.dropAll_eq hh hs, List.mem_mergeSort] at hk
    exact (Search.dropPass_sublist _ _ _).subset hk
  · intro i hk
    have hrange := Search.size_ofFeatures index entry.features ▸ hm.inRange
    rw [ne_eq, ← h.isolates_iff he fun j hj ↦ hrange j (List.mem_of_mem_erase hj)]
    exact hm.needed i hk

/-- A string and a return type, each carried by another method too, belong to one method together.
Shrinking leaves these two without the access flags that all methods have. -/
theorem shrunk_of_build_flags :
    let texts : Method :=
      { id := ⟨"LA;->a()V"⟩, returnType := "V",
        instructions := [{ opcode := "const-string", string := some "text" }] }
    let plain : Method := { id := ⟨"LA;->b()V"⟩, returnType := "V" }
    let other : Method :=
      { id := ⟨"LA;->c()I"⟩, returnType := "I",
        instructions := [{ opcode := "const-string", string := some "text" }] }
    ∃ index, build "shrunk" 0 [.method plain, .method texts, .method other] = .ok index ∧
      index.position? texts.id = some 1 ∧ index.features? texts.id = some (texts.features 0) ∧
      [3, 0, 1].Nodup ∧ (∀ i ∈ [3, 0, 1], i < (texts.features 0).length) ∧
      index.ambiguity ([3, 0, 1].filterMap ((texts.features 0)[·]?)) = #[1] ∧
      (Search.ofFeatures index (texts.features 0)).shrink [3, 0, 1] = [1, 3] ∧
      index.Shrunk 1 (texts.features 0) [3, 0, 1] [1, 3] ∧
      (Search.ofFeatures index (texts.features 0)).Settles [3, 0, 1] := by
  intro texts plain other
  let members : List Member := [.method plain, .method texts, .method other]
  obtain ⟨index, hb⟩ : ∃ index, build "shrunk" 0 members = .ok index :=
    exists_build "shrunk" 0 (by decide) (by decide) (by decide) (by decide)
  have h := represents_of_build hb
  have he : index.method? 1 = some (.ofMethod 0 texts) := h.method?_eq 1
  have hp : index.position? texts.id = some 1 := h.position?_id he
  have hf : index.features? texts.id = some (texts.features 0) :=
    h.features?_eq_some_iff.mpr ⟨1, _, hp, he, rfl, rfl⟩
  have hn : [3, 0, 1].Nodup := by decide
  have hr : ∀ i ∈ [3, 0, 1], i < (texts.features 0).length := by decide
  have ha : index.ambiguity ([3, 0, 1].filterMap ((texts.features 0)[·]?)) = #[1] := by
    rw [h.ambiguity_eq (by nofun)]
    decide
  obtain ⟨hshrunk, hsettles⟩ := shrunk_of_build hb hp hf hn hr ha
  have hunique (set : List Nat) (hs : ∀ i ∈ set, i < (texts.features 0).length) :
      (Search.ofFeatures index (texts.features 0)).isUnique set = true ↔
        index.ambiguity (set.filterMap ((texts.features 0)[·]?)) = #[1] := by
    rw [← Search.size_ofFeatures index] at hs
    exact (Search.isUnique_iff (h.holds_ofFeatures he) hs).trans
      (h.isolates_iff he (Search.size_ofFeatures index _ ▸ hs))
  have hflags : ¬(Search.ofFeatures index (texts.features 0)).isUnique [3, 0] = true := by
    rw [hunique [3, 0] (by decide), h.ambiguity_eq (by nofun)]
    decide
  have hpair : (Search.ofFeatures index (texts.features 0)).isUnique [3, 1] = true := by
    rw [hunique [3, 1] (by decide), h.ambiguity_eq (by nofun)]
    decide
  have htype : ¬(Search.ofFeatures index (texts.features 0)).isUnique [1] = true := by
    rw [hunique [1] (by decide), h.ambiguity_eq (by nofun)]
    decide
  have hkept : (Search.ofFeatures index (texts.features 0)).shrink [3, 0, 1] = [1, 3] := by
    rw [hsettles.shrink_eq]
    simp [Search.dropPass, hflags, hpair, htype, List.mergeSort]
  rw [hkept] at hshrunk
  exact ⟨index, hb, hp, hf, hn, hr, ha, hkept, hshrunk, hsettles⟩

end Index

end MethodPrint
