import MethodPrint.Proofs.Index.Build
import MethodPrint.Proofs.Traversal

/-!
# Which members have an index

Members have an index exactly if there is a method among them, there are no more methods than
positions, every method is well formed and no two have one identifier. Otherwise the first method
that breaks this is blamed, or the corpus if it has no methods at all.
-/

namespace MethodPrint

namespace Method

/-- A method is well formed if it has an identifier, a return type, and an opcode in every
instruction, be it a leading one or not. -/
structure WellFormed (method : Method) : Prop where
  id_ne : method.id.text ≠ ""
  returnType_ne : method.returnType ≠ ""
  opcode_ne : ∀ instruction ∈ method.instructions, instruction.opcode ≠ ""

/-- A flaw that a method has: the first of those that are looked for. -/
def HasFlaw (method : Method) : MethodFlaw → Prop
  | .emptyId => method.id.text = ""
  | .emptyReturnType => method.id.text ≠ "" ∧ method.returnType = ""
  | .missingOpcode index => method.id.text ≠ "" ∧ method.returnType ≠ "" ∧
    (∃ instruction, method.instructions[index]? = some instruction ∧ instruction.opcode = "") ∧
    ∀ instruction ∈ method.instructions.take index, instruction.opcode ≠ ""
  | .reported _ => False

private theorem findIdx?_opcode_eq_some_iff {instructions : List Instruction} {index : Nat} :
    instructions.findIdx? (·.opcode.isEmpty) = some index ↔
      (∃ instruction, instructions[index]? = some instruction ∧ instruction.opcode = "") ∧
        ∀ instruction ∈ instructions.take index, instruction.opcode ≠ "" := by
  rw [List.findIdx?_eq_some_iff_getElem]
  simp only [String.isEmpty_iff, List.getElem?_eq_some_iff, List.mem_take_iff_getElem]
  constructor
  · rintro ⟨hl, he, hb⟩
    refine ⟨⟨_, ⟨hl, rfl⟩, he⟩, ?_⟩
    rintro _ ⟨j, hj, rfl⟩
    exact hb j (by omega)
  · rintro ⟨⟨_, ⟨hl, rfl⟩, he⟩, hb⟩
    exact ⟨hl, he, fun j hj ↦ hb _ ⟨j, by omega, rfl⟩⟩

/-- The flaw that is found is one that the method has. -/
theorem flaw?_eq_some_iff {method : Method} {flaw : MethodFlaw} :
    method.flaw? = some flaw ↔ method.HasFlaw flaw := by
  unfold flaw?
  by_cases hi : method.id.text = ""
  · cases flaw <;> simp [HasFlaw, hi]
  · by_cases hr : method.returnType = ""
    · cases flaw <;> simp [HasFlaw, hi, hr]
    · cases flaw <;> simp [HasFlaw, hi, hr, findIdx?_opcode_eq_some_iff]

/-- No flaw is found exactly in well-formed methods. -/
theorem flaw?_eq_none_iff {method : Method} : method.flaw? = none ↔ method.WellFormed := by
  unfold flaw?
  by_cases hi : method.id.text = ""
  · simp only [String.isEmpty_iff, hi, if_true, reduceCtorEq, false_iff]
    exact fun hw ↦ hw.id_ne hi
  · by_cases hr : method.returnType = ""
    · simp only [String.isEmpty_iff, hi, hr, if_true, if_false, reduceCtorEq, false_iff]
      exact fun hw ↦ hw.returnType_ne hr
    · simp only [String.isEmpty_iff, hi, hr, if_false, Option.map_eq_none_iff,
        List.findIdx?_eq_none_iff, Bool.eq_false_iff, ne_eq]
      exact ⟨fun ho ↦ ⟨hi, hr, ho⟩, fun hw ↦ hw.opcode_ne⟩

end Method

namespace Index

/-- Members that can be listed in one index: their methods are well formed, no more than there are
positions, and have identifiers of their own. -/
structure Indexable (members : List Member) : Prop where
  wellFormed : ∀ method ∈ members.filterMap Member.method?, method.WellFormed
  length_le : (members.filterMap Member.method?).length ≤ UInt32.size
  nodup_ids : ((members.filterMap Member.method?).map (·.id)).Nodup

/-- The error with which a method is refused after some members: for its own flaw if it has one, be
its identifier taken or not; else because the methods before it have used up all positions; and
else because one of them has its identifier. -/
inductive Refused (corpusId : String) (before : List Member) (method : Method) :
    FingerprintError → Prop where
  | flawed {flaw : MethodFlaw} (hf : method.HasFlaw flaw) :
    Refused corpusId before method (.indexBuild (methodContext corpusId method.id)
      (FingerprintError.malformedMethod method.id flaw).message)
  | unaddressable (hw : method.WellFormed)
    (hs : UInt32.size ≤ (before.filterMap Member.method?).length) :
    Refused corpusId before method (.indexBuild (addressContext corpusId) addressReason)
  | duplicate (hw : method.WellFormed)
    (hs : (before.filterMap Member.method?).length < UInt32.size) {earlier : Method}
    (he : earlier ∈ before.filterMap Member.method?) (hi : earlier.id = method.id) :
    Refused corpusId before method
      (.indexBuild (methodContext corpusId method.id) duplicateReason)

/-- What is blamed for members that have no index: the first method that is refused after those
before it, or if there are no methods the corpus, whose other members are counted. -/
inductive Blamed (corpusId : String) (members : List Member) : FingerprintError → Prop where
  | method {before after : List Member} {method : Method} {error : FingerprintError}
    (hm : members = before ++ .method method :: after) (hb : Indexable before)
    (hr : Refused corpusId before method error) : Blamed corpusId members error
  | empty (hn : members.filterMap Member.method? = []) :
    Blamed corpusId members (.indexBuild (emptyContext corpusId) (emptyReason members.length))

variable {corpusId : String} {window : Nat} {before members : List Member} {roll : Roll}
  {error : FingerprintError}

/-! ### Entering members -/

private theorem enter_of_flaw {method : Method} {flaw : MethodFlaw}
    (hf : method.flaw? = some flaw) :
    roll.enter corpusId window (.method method) =
      .error (.indexBuild (methodContext corpusId method.id)
        (FingerprintError.malformedMethod method.id flaw).message) := by
  simp [Roll.enter, Method.extract, hf, FingerprintError.withContext]

private theorem enter_of_flawless {method : Method} (hf : method.flaw? = none) :
    roll.enter corpusId window (.method method) =
      if UInt32.size ≤ roll.methods.size then
        .error (.indexBuild (addressContext corpusId) addressReason)
      else if method.id ∈ roll.positions then
        .error (.indexBuild (methodContext corpusId method.id) duplicateReason)
      else .ok (roll.add window method) := by
  simp only [Roll.enter, Method.extract, hf, Std.HashMap.contains_iff_mem]
  rfl

/-- A method cannot be entered if it is refused after the members before it. -/
theorem Roll.Holds.enter_method_eq_error_iff (h : roll.Holds window before) {method : Method} :
    roll.enter corpusId window (.method method) = .error error ↔
      Refused corpusId before method error := by
  cases hf : method.flaw? with
  | some flaw =>
    have hflaw := Method.flaw?_eq_some_iff.mp hf
    rw [enter_of_flaw hf, Except.error.injEq]
    constructor
    · rintro rfl
      exact .flawed hflaw
    · intro hr
      cases hr with
      | flawed ho =>
        rw [← Method.flaw?_eq_some_iff, hf, Option.some.injEq] at ho
        rw [ho]
      | unaddressable hw | duplicate hw =>
        rw [← Method.flaw?_eq_none_iff, hf] at hw
        cases hw
  | none =>
    have hw := Method.flaw?_eq_none_iff.mp hf
    have hnot {flaw : MethodFlaw} : ¬method.HasFlaw flaw := by
      rw [← Method.flaw?_eq_some_iff, hf]
      exact nofun
    rw [enter_of_flawless hf, h.size_eq]
    constructor
    · intro he
      split at he
      · next hs =>
        cases he
        exact .unaddressable hw hs
      · next hs =>
        split at he
        · next hm =>
          obtain ⟨earlier, hm, hi⟩ := h.mem_positions_iff.mp hm
          cases he
          exact .duplicate hw (Nat.not_le.mp hs) hm hi
        · cases he
    · intro hr
      cases hr with
      | flawed ho => exact absurd ho hnot
      | unaddressable _ hs => rw [if_pos hs]
      | duplicate _ hs hm hi =>
        rw [if_neg (Nat.not_le.mpr hs), if_pos (h.mem_positions_iff.mpr ⟨_, hm, hi⟩)]

/-- A member cannot be entered if it is a method that is refused after those before it. -/
theorem Roll.Holds.enter_eq_error_iff (h : roll.Holds window before) {member : Member} :
    roll.enter corpusId window member = .error error ↔
      ∃ method, member = .method method ∧ Refused corpusId before method error := by
  cases member with
  | method method =>
    simp only [Member.method.injEq, exists_eq_left']
    exact h.enter_method_eq_error_iff
  | field decl => simp [Roll.enter]
  | classDecl decl => simp [Roll.enter]

/-- No two methods of a roll have one identifier, since each is found under its own. -/
theorem Roll.Holds.nodup_ids (h : roll.Holds window members) :
    ((members.filterMap Member.method?).map (·.id)).Nodup := by
  have he : (members.filterMap Member.method?).map (·.id) = roll.methods.toList.map (·.id) := by
    rw [h.methods_eq, entriesOf, List.map_map]
    rfl
  rw [he, List.Nodup, List.pairwise_iff_getElem]
  intro i j hi hj hij heq
  simp only [List.length_map, Array.length_toList] at hi hj
  simp only [List.getElem_map, Array.getElem_toList] at heq
  have hpi := (h.positions_iff _ i).mpr ⟨_, Array.getElem?_eq_getElem hi, rfl⟩
  have hpj := (h.positions_iff _ j).mpr ⟨_, Array.getElem?_eq_getElem hj, heq.symm⟩
  rw [hpi] at hpj
  exact Nat.ne_of_lt hij (Option.some.inj hpj)

/-- Members can all be entered exactly if they can be listed in one index. -/
theorem exists_enterAll_iff :
    (∃ roll, Roll.enterAll corpusId window {} members = .ok roll) ↔ Indexable members := by
  constructor
  · rintro ⟨roll, hr⟩
    have h := (Roll.Holds.empty window).enterAll hr
    exact ⟨fun method hm ↦ Method.flaw?_eq_none_iff.mp (h.flawless method hm),
      h.size_eq ▸ h.size_le, h.nodup_ids⟩
  · intro h
    exact (Roll.Holds.empty window).exists_enterAll corpusId
      (fun method hm ↦ Method.flaw?_eq_none_iff.mpr (h.wellFormed method hm)) h.length_le
      h.nodup_ids

/-- Where members cannot all be entered, the first method that is refused is blamed. -/
theorem enterAll_eq_error_iff :
    Roll.enterAll corpusId window {} members = .error error ↔
      ∃ before method after, members = before ++ .method method :: after ∧ Indexable before ∧
        Refused corpusId before method error := by
  rw [Roll.enterAll, foldlM_eq_error_iff]
  constructor
  · rintro ⟨before, member, after, roll, hm, hb, he⟩
    have h := (Roll.Holds.empty window).enterAll hb
    obtain ⟨method, rfl, hr⟩ := h.enter_eq_error_iff.mp he
    exact ⟨before, method, after, hm, exists_enterAll_iff.mp ⟨roll, hb⟩, hr⟩
  · rintro ⟨before, method, after, hm, hi, hr⟩
    obtain ⟨roll, hb⟩ : ∃ roll, Roll.enterAll corpusId window {} before = .ok roll :=
      exists_enterAll_iff.mpr hi
    have h := (Roll.Holds.empty window).enterAll hb
    exact ⟨before, .method method, after, roll, hm, hb, h.enter_eq_error_iff.mpr ⟨method, rfl, hr⟩⟩

/-! ### Building -/

/-- Whoever is blamed, the error is that of building an index of the corpus. -/
theorem Blamed.exists_indexBuild (h : Blamed corpusId members error) :
    ∃ context reason, error = .indexBuild context reason ∧ context.corpusId = some corpusId := by
  cases h with
  | method _ _ hr => cases hr <;> exact ⟨_, _, rfl, rfl⟩
  | empty => exact ⟨_, _, rfl, rfl⟩

private theorem indexable_of_eq_nil (h : members.filterMap Member.method? = []) :
    Indexable members := by
  refine ⟨?_, ?_, ?_⟩
  · rw [h]
    exact nofun
  · rw [h]
    exact Nat.zero_le _
  · rw [h]
    exact List.nodup_nil

/-- A roll without methods has skipped all members, and none of them is a method. -/
theorem Roll.Holds.size_eq_zero_iff (h : roll.Holds window members) :
    roll.methods.size = 0 ↔ members.filterMap Member.method? = [] := by
  rw [h.size_eq, List.length_eq_zero_iff]

/-- Members have no index exactly if there is someone to blame. -/
theorem build_eq_error_iff :
    build corpusId window members = .error error ↔ Blamed corpusId members error := by
  cases hr : Roll.enterAll corpusId window {} members with
  | error refused =>
    have hb : build corpusId window members = .error refused := by
      rw [build, hr]
      rfl
    rw [hb, Except.error.injEq]
    constructor
    · rintro rfl
      obtain ⟨before, method, after, hm, hi, hf⟩ := enterAll_eq_error_iff.mp hr
      exact .method hm hi hf
    · intro h
      cases h with
      | method hm hi hf =>
        rw [enterAll_eq_error_iff.mpr ⟨_, _, _, hm, hi, hf⟩] at hr
        exact (Except.error.inj hr).symm
      | empty hn =>
        obtain ⟨roll, hok⟩ := exists_enterAll_iff.mpr (indexable_of_eq_nil hn)
        rw [hok] at hr
        cases hr
  | ok roll =>
    have h := (Roll.Holds.empty window).enterAll hr
    rw [List.nil_append] at h
    have hs := h.size_eq_zero_iff
    rw [build_of_enterAll hr]
    constructor
    · intro he
      split at he
      · next hz =>
        cases he
        have hk : roll.skipped = members.length := by
          have := h.size_add_skipped
          omega
        rw [hk]
        exact .empty (hs.mp hz)
      · cases he
    · intro hb
      cases hb with
      | method hm hi hf =>
        rw [enterAll_eq_error_iff.mpr ⟨_, _, _, hm, hi, hf⟩] at hr
        cases hr
      | empty hn =>
        have hz := hs.mpr hn
        have hk : roll.skipped = members.length := by
          have := h.size_add_skipped
          omega
        rw [if_pos hz, hk]

/-- Members have an index exactly if they have methods and can be listed. -/
theorem exists_build_iff :
    (∃ index, build corpusId window members = .ok index) ↔
      members.filterMap Member.method? ≠ [] ∧ Indexable members := by
  constructor
  · rintro ⟨index, hb⟩
    obtain ⟨roll, hr, he, _⟩ := exists_roll_of_build hb
    refine ⟨fun hn ↦ he ?_, exists_enterAll_iff.mp ⟨roll, hr⟩⟩
    have h := (Roll.Holds.empty window).enterAll hr
    rw [Array.isEmpty_iff_size_eq_zero]
    exact h.size_eq_zero_iff.mpr hn
  · rintro ⟨hm, hi⟩
    exact exists_build corpusId window hm
      (fun method hf ↦ Method.flaw?_eq_none_iff.mpr (hi.wellFormed method hf)) hi.length_le
      hi.nodup_ids

/-- When members have an index, and the error that they have instead. -/
structure BuiltIfIndexable (corpusId : String) (members : List Member)
    (result : Except FingerprintError Index) : Prop where
  succeeds_iff : (∃ index, result = .ok index) ↔
    members.filterMap Member.method? ≠ [] ∧ Indexable members
  fails_iff : ∀ error, result = .error error ↔ Blamed corpusId members error
  names_corpus : ∀ error, result = .error error →
    ∃ context reason, error = .indexBuild context reason ∧ context.corpusId = some corpusId

/-- Whatever the members and the window: they have an index exactly if they have methods and can be
listed, and otherwise the first method that stands in the way is blamed, or the empty corpus. -/
theorem builtIfIndexable_build (corpusId : String) (window : Nat) (members : List Member) :
    BuiltIfIndexable corpusId members (build corpusId window members) where
  succeeds_iff := exists_build_iff
  fails_iff := fun _ ↦ build_eq_error_iff
  names_corpus := fun _ h ↦ (build_eq_error_iff.mp h).exists_indexBuild

-- An instruction beyond the window counts, and a flaw counts before a taken identifier.
example :
    build "c" 0 [.method { id := ⟨"a"⟩, returnType := "V" },
        .method { id := ⟨"a"⟩, returnType := "V", instructions := [{ opcode := "" }] }] =
      .error (.indexBuild ⟨"c", "feature_index", "extracting features", "method a"⟩
        "Malformed method 'a': instruction 0 has no opcode") := by
  have hb : Indexable [.method { id := ⟨"a"⟩, returnType := "V" }] :=
    ⟨by simp [Member.method?, ← Method.flaw?_eq_none_iff, Method.flaw?], by decide, by decide⟩
  have hf : Method.HasFlaw
      { id := ⟨"a"⟩, returnType := "V", instructions := [{ opcode := "" }] } (.missingOpcode 0) :=
    ⟨by decide, by decide, by simp⟩
  exact build_eq_error_iff.mpr (.method rfl hb (.flawed hf))

/-- One method more than there are positions, all of them well formed and with identifiers of their
own, have no index. The last one is refused. -/
theorem build_crowd :
    let members := crowd (UInt32.size + 1)
    members.filterMap Member.method? ≠ [] ∧
      (∀ method ∈ members.filterMap Member.method?, method.WellFormed) ∧
      ((members.filterMap Member.method?).map (·.id)).Nodup ∧
      build "crowd" 0 members = .error (.indexBuild (addressContext "crowd") addressReason) := by
  intro members
  let last : Method := { id := ⟨toString UInt32.size⟩, returnType := "V" }
  have hlast : members = crowd UInt32.size ++ [.method last] := crowd_succ _
  have hwellFormed (size : Nat) : ∀ method ∈ (crowd size).filterMap Member.method?,
      method.WellFormed :=
    fun method hm ↦ Method.flaw?_eq_none_iff.mp (flaw?_of_mem_crowd method hm)
  have hlength := length_crowd UInt32.size
  refine ⟨?_, hwellFormed _, nodup_ids_crowd _, build_eq_error_iff.mpr (.method hlast ?_ ?_)⟩
  · apply List.ne_nil_of_length_pos
    rw [length_crowd]
    exact Nat.succ_pos _
  · exact ⟨hwellFormed _, Nat.le_of_eq hlength, nodup_ids_crowd _⟩
  · apply Refused.unaddressable _ (Nat.le_of_eq hlength.symm)
    apply hwellFormed (UInt32.size + 1) last
    rw [crowd_succ, List.filterMap_append]
    exact List.mem_append_right _ List.mem_cons_self

end Index

end MethodPrint
