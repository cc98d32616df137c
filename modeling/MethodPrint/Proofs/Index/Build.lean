import MethodPrint.Index
import MethodPrint.Proofs.Feature.Sequence
import MethodPrint.Proofs.Posting.Intersection
import MethodPrint.Proofs.Text.Numeral

/-!
# What an index holds

Building succeeds on the corpora that have methods, no more than there are positions, all of them
without flaw and with identifiers of their own. The index then lists the methods in corpus order,
finds each under its identifier, and leads from a feature to exactly the methods that carry it.
-/

namespace MethodPrint

/-- The entry of a method in an index. -/
def IndexedMethod.ofMethod (window : Nat) (method : Method) : IndexedMethod :=
  ⟨method, method.features window⟩

namespace Index

/-- The methods among some members, as an index lists them. -/
def entriesOf (window : Nat) (members : List Member) : List IndexedMethod :=
  (members.filterMap Member.method?).map (IndexedMethod.ofMethod window)

/-! ### Entering members -/

/-- The roll with one more method. -/
def Roll.add (window : Nat) (roll : Roll) (method : Method) : Roll :=
  { roll with
    methods := roll.methods.push (.ofMethod window method)
    positions := roll.positions.insert method.id roll.methods.size }

/-- A member can be entered unless it is a method with a flaw, without a position left for it, or
with a taken identifier. -/
theorem enter_eq_ok_iff {corpusId : String} {window : Nat} {roll next : Roll} {member : Member} :
    roll.enter corpusId window member = .ok next ↔
      match member.method? with
      | some method =>
        method.flaw? = none ∧ roll.methods.size < UInt32.size ∧ method.id ∉ roll.positions ∧
          roll.add window method = next
      | none => { roll with skipped := roll.skipped + 1 } = next := by
  cases member with
  | method method =>
    simp only [Roll.enter, Member.method?]
    cases he : method.extract window with
    | error error =>
      have hf : method.flaw? ≠ none := by
        intro h
        simp [Method.extract, h] at he
      simp [hf]
    | ok features =>
      obtain ⟨hf, rfl⟩ := Method.extract_eq_ok_iff.mp he
      by_cases hs : roll.methods.size < UInt32.size
      · by_cases hc : method.id ∈ roll.positions
        · simp [hs, Nat.not_le.mpr hs, hc]
        · simp [hs, Nat.not_le.mpr hs, hc, hf, Roll.add, IndexedMethod.ofMethod]
      · simp [hs, Nat.not_lt.mp hs]
  | field decl => simp [Roll.enter, Member.method?]
  | classDecl decl => simp [Roll.enter, Member.method?]

/-- What a roll knows after some members. -/
structure Roll.Holds (window : Nat) (members : List Member) (roll : Roll) : Prop where
  methods_eq : roll.methods.toList = entriesOf window members
  flawless : ∀ method ∈ members.filterMap Member.method?, method.flaw? = none
  positions_iff : ∀ (id : MethodId) (position : Nat), roll.positions[id]? = some position ↔
    ∃ entry, roll.methods[position]? = some entry ∧ entry.id = id
  size_add_skipped : roll.methods.size + roll.skipped = members.length
  size_le : roll.methods.size ≤ UInt32.size

/-- Before any member nothing is known. -/
theorem Roll.Holds.empty (window : Nat) : Roll.Holds window [] {} :=
  ⟨rfl, nofun, by simp, rfl, Nat.zero_le _⟩

/-- A roll has as many methods as there are among the members. -/
theorem Roll.Holds.size_eq {window : Nat} {members : List Member} {roll : Roll}
    (h : roll.Holds window members) :
    roll.methods.size = (members.filterMap Member.method?).length := by
  rw [← Array.length_toList, h.methods_eq, entriesOf, List.length_map]

private theorem Roll.Holds.add {window : Nat} {members : List Member} {roll : Roll}
    (h : roll.Holds window members) {method : Method} (hf : method.flaw? = none)
    (hs : roll.methods.size < UInt32.size) (hi : method.id ∉ roll.positions) :
    (roll.add window method).Holds window (members ++ [.method method]) where
  methods_eq := by
    simp [Roll.add, entriesOf, h.methods_eq, Member.method?]
  flawless := by
    intro m hm
    rw [List.filterMap_append, List.mem_append] at hm
    rcases hm with hm | hm
    · exact h.flawless m hm
    · obtain rfl : m = method := by simpa [Member.method?] using hm
      exact hf
  positions_iff := by
    intro id position
    rw [Roll.add, Std.HashMap.getElem?_insert, Array.getElem?_push]
    by_cases hp : position = roll.methods.size
    · subst hp
      simp only [↓reduceIte, Option.some.injEq, exists_eq_left']
      by_cases he : method.id = id
      · simp [he, IndexedMethod.id, IndexedMethod.ofMethod]
      · simp only [beq_iff_eq, he, ↓reduceIte, h.positions_iff]
        simp [IndexedMethod.id, IndexedMethod.ofMethod, he]
    · simp only [if_neg hp]
      by_cases he : method.id = id
      · subst he
        have hn : roll.positions[method.id]? = none := Std.HashMap.getElem?_eq_none hi
        simp only [BEq.rfl, ↓reduceIte, Option.some.injEq, ← h.positions_iff, hn, reduceCtorEq,
          iff_false]
        exact fun h ↦ hp h.symm
      · simp only [beq_iff_eq, he, ↓reduceIte, h.positions_iff]
  size_add_skipped := by
    have := h.size_add_skipped
    simp only [Roll.add, Array.size_push, List.length_append, List.length_singleton]
    omega
  size_le := by
    rw [Roll.add, Array.size_push]
    exact hs

private theorem Roll.Holds.skip {window : Nat} {members : List Member} {roll : Roll}
    (h : roll.Holds window members) {member : Member} (hm : member.method? = none) :
    Roll.Holds window (members ++ [member]) { roll with skipped := roll.skipped + 1 } where
  methods_eq := by simp [entriesOf, h.methods_eq, hm]
  flawless := by simpa [hm] using h.flawless
  positions_iff := h.positions_iff
  size_add_skipped := by
    have := h.size_add_skipped
    simp only [List.length_append, List.length_singleton]
    omega
  size_le := h.size_le

/-- One more member keeps a roll right. -/
theorem Roll.Holds.enter {corpusId : String} {window : Nat} {members : List Member}
    {roll next : Roll} (h : roll.Holds window members) {member : Member}
    (he : roll.enter corpusId window member = .ok next) :
    next.Holds window (members ++ [member]) := by
  rw [enter_eq_ok_iff] at he
  split at he
  · next method hm =>
    obtain ⟨hf, hs, hi, rfl⟩ := he
    obtain rfl : member = .method method := by
      cases member <;> simp_all [Member.method?]
    exact h.add hf hs hi
  · next hm =>
    subst he
    exact h.skip hm

/-- Any number of members keep a roll right. -/
theorem Roll.Holds.enterAll {corpusId : String} {window : Nat} {before members : List Member}
    {roll last : Roll} (h : roll.Holds window before)
    (he : roll.enterAll corpusId window members = .ok last) :
    last.Holds window (before ++ members) := by
  induction members generalizing before roll with
  | nil =>
    cases he
    simpa using h
  | cons member members ih =>
    rw [Roll.enterAll, List.foldlM_cons] at he
    cases hr : roll.enter corpusId window member with
    | error error =>
      rw [hr] at he
      cases he
    | ok next =>
      rw [hr] at he
      rw [List.append_cons]
      exact ih (h.enter hr) he

/-- The identifiers with a position are those of the methods entered. -/
theorem Roll.Holds.mem_positions_iff {window : Nat} {before : List Member} {roll : Roll}
    (h : roll.Holds window before) {id : MethodId} :
    id ∈ roll.positions ↔ ∃ method ∈ before.filterMap Member.method?, method.id = id := by
  constructor
  · intro hm
    obtain ⟨entry, he, rfl⟩ := (h.positions_iff id _).mp (Std.HashMap.getElem?_eq_some_getElem hm)
    have hl := Array.mem_toList_iff.mpr (Array.mem_of_getElem? he)
    rw [h.methods_eq] at hl
    obtain ⟨method, hb, rfl⟩ := List.mem_map.mp hl
    exact ⟨method, hb, rfl⟩
  · rintro ⟨method, hb, rfl⟩
    have hl : IndexedMethod.ofMethod window method ∈ roll.methods.toList := by
      rw [h.methods_eq]
      exact List.mem_map_of_mem hb
    obtain ⟨position, hp⟩ := Array.mem_iff_getElem?.mp (Array.mem_toList_iff.mp hl)
    have hs := (h.positions_iff method.id position).mpr ⟨_, hp, rfl⟩
    exact Std.HashMap.mem_iff_isSome_getElem?.mpr (Option.isSome_of_eq_some hs)

/-- Members whose methods have no flaw, positions enough and identifiers of their own can all be
entered. -/
theorem Roll.Holds.exists_enterAll {window : Nat} {before members : List Member} {roll : Roll}
    (h : roll.Holds window before) (corpusId : String)
    (hf : ∀ method ∈ members.filterMap Member.method?, method.flaw? = none)
    (hs : ((before ++ members).filterMap Member.method?).length ≤ UInt32.size)
    (hn : (((before ++ members).filterMap Member.method?).map (·.id)).Nodup) :
    ∃ last, roll.enterAll corpusId window members = .ok last := by
  induction members generalizing before roll with
  | nil => exact ⟨roll, rfl⟩
  | cons member members ih =>
    have hr : ∃ next, roll.enter corpusId window member = .ok next := by
      cases hm : member.method? with
      | none => exact ⟨_, enter_eq_ok_iff.mpr (by rw [hm])⟩
      | some method =>
        refine ⟨roll.add window method, enter_eq_ok_iff.mpr ?_⟩
        rw [hm]
        have hlt : roll.methods.size < UInt32.size := by
          rw [h.size_eq]
          simp only [List.filterMap_append, List.filterMap_cons, hm, List.length_append,
            List.length_cons] at hs
          omega
        refine ⟨hf method (by simp [hm]), hlt, fun hp ↦ ?_, rfl⟩
        obtain ⟨m, hb, he⟩ := h.mem_positions_iff.mp hp
        rw [List.filterMap_append, List.map_append, List.nodup_append] at hn
        exact hn.2.2 m.id (List.mem_map_of_mem hb) method.id (by simp [hm]) he
    obtain ⟨next, hr⟩ := hr
    obtain ⟨last, hl⟩ := ih (h.enter hr)
      (fun m hm ↦ hf m (by rw [List.filterMap_cons]; split <;> simp [hm]))
      (by simpa using hs) (by simpa using hn)
    refine ⟨last, ?_⟩
    rw [Roll.enterAll, List.foldlM_cons, hr]
    exact hl

/-! ### Posting lists -/

private theorem getD_post {position : Nat} {postings : Std.HashMap Feature Posting}
    {features : List Feature} (hn : features.Nodup) (feature : Feature) :
    (post position postings features).getD feature #[] =
      if feature ∈ features then (postings.getD feature #[]).push position
      else postings.getD feature #[] := by
  induction features generalizing postings with
  | nil => simp [post]
  | cons f features ih =>
    obtain ⟨hf, hn⟩ := List.nodup_cons.mp hn
    rw [post, List.foldl_cons, ← post, ih hn, Std.HashMap.getD_alter]
    by_cases he : f = feature
    · subst he
      simp [hf, Std.HashMap.getD_eq_getD_getElem?]
    · simp [he, Ne.symm he]

private theorem getD_postAll {entries : List IndexedMethod}
    (hn : ∀ entry ∈ entries, entry.features.Nodup) {position : Nat}
    (hs : position + entries.length ≤ UInt32.size) (postings : Std.HashMap Feature Posting)
    (feature : Feature) :
    ((postAll position postings entries).getD feature #[]).toList =
      (postings.getD feature #[]).toList ++
        ((entries.zipIdx position).filter (feature ∈ ·.1.features)).map Prod.snd := by
  induction entries generalizing position postings with
  | nil => simp [postAll]
  | cons entry entries ih =>
    obtain ⟨he, hn⟩ := List.forall_mem_cons.mp hn
    rw [List.length_cons] at hs
    have hw : Posting.wrap position = position := Posting.wrap_of_lt (by omega)
    rw [postAll, hw, ih hn (by omega), getD_post he, List.zipIdx_cons]
    by_cases hf : feature ∈ entry.features
    · simp [hf]
    · simp [hf]

/-! ### Building -/

/-- What an index knows of the members it was built from. -/
structure Represents (window : Nat) (members : List Member) (index : Index) : Prop where
  methods_eq : index.methods.toList = entriesOf window members
  flawless : ∀ method ∈ members.filterMap Member.method?, method.flaw? = none
  position?_iff : ∀ {id position}, index.position? id = some position ↔
    ∃ entry, index.method? position = some entry ∧ entry.id = id
  lookup_eq : ∀ feature, (index.lookup feature).toList =
    (index.methods.toList.zipIdx.filter (feature ∈ ·.1.features)).map Prod.snd
  size_add_skipped : index.size + index.skipped = members.length
  size_pos : 0 < index.size
  size_le : index.size ≤ UInt32.size

private theorem nodup_of_mem_entriesOf {window : Nat} {members : List Member}
    {entry : IndexedMethod} (h : entry ∈ entriesOf window members) : entry.features.Nodup := by
  obtain ⟨method, _, rfl⟩ := List.mem_map.mp h
  exact method.nodup_features window

/-- Once all members are entered an index is built, unless there is no method among them. -/
theorem build_of_enterAll {corpusId : String} {window : Nat} {members : List Member}
    {roll : Roll} (h : Roll.enterAll corpusId window {} members = .ok roll) :
    build corpusId window members =
      if roll.methods.size = 0 then .error (.indexBuild (emptyContext corpusId)
        (emptyReason roll.skipped))
      else .ok ⟨corpusId, roll.methods, roll.positions, postAll 0 ∅ roll.methods.toList,
        roll.skipped⟩ := by
  simp only [build, h, bind, Except.bind, Array.isEmpty_iff_size_eq_zero]
  split
  · rfl
  · rfl

/-- An index is built from the roll of all members, unless it has no methods. -/
theorem exists_roll_of_build {corpusId : String} {window : Nat} {members : List Member}
    {index : Index} (h : build corpusId window members = .ok index) :
    ∃ roll, Roll.enterAll corpusId window {} members = .ok roll ∧ ¬roll.methods.isEmpty ∧
      index = ⟨corpusId, roll.methods, roll.positions, postAll 0 ∅ roll.methods.toList,
        roll.skipped⟩ := by
  cases hr : Roll.enterAll corpusId window {} members with
  | error error => simp [build, hr, bind, Except.bind] at h
  | ok roll =>
    rw [build_of_enterAll hr] at h
    split at h
    · cases h
    · next hs =>
      cases h
      exact ⟨roll, rfl, by rwa [Array.isEmpty_iff_size_eq_zero], rfl⟩

/-- A built index represents its members. -/
theorem represents_of_build {corpusId : String} {window : Nat} {members : List Member}
    {index : Index} (h : build corpusId window members = .ok index) :
    index.Represents window members := by
  obtain ⟨roll, hr, he, rfl⟩ := exists_roll_of_build h
  have hh := (Roll.Holds.empty window).enterAll hr
  rw [List.nil_append] at hh
  refine ⟨hh.methods_eq, hh.flawless, hh.positions_iff _ _, fun feature ↦ ?_,
    hh.size_add_skipped, ?_, hh.size_le⟩
  · have hn : ∀ entry ∈ roll.methods.toList, entry.features.Nodup := by
      rw [hh.methods_eq]
      exact fun _ ↦ nodup_of_mem_entriesOf
    have hs : 0 + roll.methods.toList.length ≤ UInt32.size := by
      rw [Nat.zero_add, Array.length_toList]
      exact hh.size_le
    rw [lookup, getD_postAll hn hs]
    simp
  · exact Nat.pos_of_ne_zero fun hz ↦ he (by simpa [size] using hz)

/-- Members with at least one method, no flaw, positions enough and no repeated identifier have an
index. -/
theorem exists_build (corpusId : String) (window : Nat) {members : List Member}
    (hm : members.filterMap Member.method? ≠ [])
    (hf : ∀ method ∈ members.filterMap Member.method?, method.flaw? = none)
    (hs : (members.filterMap Member.method?).length ≤ UInt32.size)
    (hn : ((members.filterMap Member.method?).map (·.id)).Nodup) :
    ∃ index, build corpusId window members = .ok index := by
  obtain ⟨roll, hr⟩ := (Roll.Holds.empty window).exists_enterAll corpusId hf hs hn
  have he : roll.methods.size ≠ 0 := by
    rw [((Roll.Holds.empty window).enterAll hr).size_eq, ne_eq, List.length_eq_zero_iff]
    exact hm
  rw [build_of_enterAll hr, if_neg he]
  exact ⟨_, rfl⟩

/-! ### Large corpora -/

/-- As many methods as asked for, which differ in their identifiers only. -/
def crowd (size : Nat) : List Member :=
  (List.range size).map fun i ↦ .method { id := ⟨toString i⟩, returnType := "V" }

/-- A larger crowd has one more method at its end. -/
theorem crowd_succ (size : Nat) : crowd (size + 1) =
    crowd size ++ [.method { id := ⟨toString size⟩, returnType := "V" }] := by
  rw [crowd, List.range_succ, List.map_append]
  rfl

/-- The members of a crowd are methods. -/
theorem filterMap_crowd (size : Nat) : (crowd size).filterMap Member.method? =
    (List.range size).map fun i ↦ ({ id := ⟨toString i⟩, returnType := "V" } : Method) := by
  rw [crowd, List.filterMap_map, ← List.filterMap_eq_map]
  rfl

private theorem toList_toString (n : Nat) : (toString n).toList = Nat.toDigits 10 n :=
  String.toList_ofList

/-- The methods of a crowd have no flaw. -/
theorem flaw?_of_mem_crowd {size : Nat} :
    ∀ method ∈ (crowd size).filterMap Member.method?, method.flaw? = none := by
  rw [filterMap_crowd, List.forall_mem_map]
  intro i _
  simp [Method.flaw?]

/-- The methods of a crowd have identifiers of their own. -/
theorem nodup_ids_crowd (size : Nat) :
    (((crowd size).filterMap Member.method?).map (·.id)).Nodup := by
  rw [filterMap_crowd, List.map_map]
  apply List.nodup_range.map
  intro i j he
  have ht : toString i = toString j := congrArg MethodId.text he
  have hd := congrArg Text.ofDigits (congrArg String.toList ht)
  rwa [toList_toString, toList_toString, Text.ofDigits_toDigits, Text.ofDigits_toDigits] at hd

/-- A crowd has as many methods as members. -/
theorem length_crowd (size : Nat) : ((crowd size).filterMap Member.method?).length = size := by
  rw [filterMap_crowd, List.length_map, List.length_range]

end Index

end MethodPrint
