import Mathlib.Data.List.DropRight
import Mathlib.Data.List.Infix
import MethodPrint.Proofs.Predicate.Grammar
import MethodPrint.Proofs.Predicate.Lexing
import MethodPrint.Resolve

/-!
# Where faults are placed

The lexer goes through a text from place to place and the parser through its tokens, and neither
goes beyond the end. A fault is therefore placed in the text, one that the parser finds at a token
or at the end, and its diagnostic says by line and column what stands before this place.
-/

namespace MethodPrint

/-! ### Lines and columns -/

/-- Lines are counted by the line breaks before a place, columns by the characters after the last
of them. -/
theorem lineColumn_eq (before : List Char) :
    lineColumn before =
      (1 + before.count '\n', 1 + (before.rtakeWhile (· != '\n')).length) := by
  induction before using List.reverseRecOn with
  | nil => rfl
  | append_singleton before c ih =>
    rw [lineColumn_concat, ih, List.count_append, List.rtakeWhile_concat]
    by_cases hc : c = '\n'
    · subst hc
      simp [Nat.add_assoc]
    · simp [hc, Nat.add_assoc]

/-- A diagnostic points to where a text ends that stands before it. -/
structure Diagnostic.PointsAfter (diagnostic : Diagnostic) (before : List Char) : Prop where
  line_eq : diagnostic.line = 1 + before.count '\n'
  column_eq : diagnostic.column = 1 + (before.rtakeWhile (· != '\n')).length

/-- A fault is diagnosed by what stands before its place. -/
theorem pointsAfter_diagnose (source : List Char) (found : PlacedFault) :
    (found.diagnose source).PointsAfter (source.take found.place) := by
  have h := lineColumn_eq (source.take found.place)
  exact ⟨congrArg Prod.fst h, congrArg Prod.snd h⟩

/-! ### Within a token -/

/-- The reading of a token after its first character takes no more characters than there are, and
places a fault no further than their end. -/
def StaysWithin {α : Type} (length : Nat) : Except PlacedFault (α × Nat) → Prop
  | .ok (_, n) => n ≤ length
  | .error found => found.place ≤ length + 1

private theorem StaysWithin.map {α β : Type} {length more : Nat}
    {result : Except PlacedFault (α × Nat)} (h : StaysWithin length result) (f : α → β)
    (hl : length ≤ more) : StaysWithin more (result.map fun (value, n) ↦ (f value, n)) := by
  cases result with
  | error found => exact Nat.le_trans h (Nat.succ_le_succ hl)
  | ok taken => exact Nat.le_trans h hl

private theorem hexFaultLength_le (cs : List Char) : hexFaultLength cs ≤ cs.length :=
  Nat.min_le_right _ _

/-- A string is read within the text after its opening quote. -/
theorem staysWithin_lexString (taken : Nat) (cs : List Char) :
    StaysWithin (taken + cs.length) (lexString taken cs) := by
  fun_induction lexString taken cs with
  | case1 => exact Nat.zero_le _
  | case2 => simp only [StaysWithin, List.length_cons]; omega
  | case3 => exact Nat.zero_le _
  | case4 => simp only [StaysWithin, List.length_cons]; omega
  | case5 taken a b c d cs _ =>
    have := hexFaultLength_le [a, b, c, d]
    simp only [StaysWithin, List.length_cons, List.length_nil] at this ⊢
    omega
  | case6 => simp only [StaysWithin, List.length_cons]; omega
  | case7 taken a b c d cs _ _ char _ ih =>
    exact ih.map (char :: ·) (by simp only [List.length_cons]; omega)
  | case8 taken cs _ =>
    have := hexFaultLength_le cs
    simp only [StaysWithin, List.length_cons]
    omega
  | case9 => simp only [StaysWithin, List.length_cons]; omega
  | case10 taken c cs _ _ char _ ih =>
    exact ih.map (char :: ·) (by simp only [List.length_cons]; omega)
  | case11 taken c cs _ _ _ _ _ _ ih =>
    exact ih.map (c :: ·) (by simp only [List.length_cons]; omega)

/-- A number is read within the text after its first character. -/
theorem staysWithin_lexNumber (first : Char) (rest : List Char) :
    StaysWithin rest.length (lexNumber first rest) := by
  have hd := (List.takeWhile_prefix Char.isDigit (l := rest)).length_le
  have hs : (if (rest.drop (rest.takeWhile Char.isDigit).length).head? = some 'L' then 1 else 0) ≤
      rest.length - (rest.takeWhile Char.isDigit).length := by
    split
    · next hl =>
      rw [← List.length_drop]
      exact List.length_pos_of_mem (List.mem_of_mem_head? hl)
    · exact Nat.zero_le _
  simp only [lexNumber]
  generalize (if first = '-' then _ else _ : Int) = value
  split
  · simp only [StaysWithin]
    omega
  · exact Nat.zero_le _

/-- A token is read within the text after its first character. -/
theorem staysWithin_lexToken (first : Char) (rest : List Char) :
    StaysWithin rest.length (lexToken first rest) := by
  unfold lexToken
  split
  case h_7 =>
    have := staysWithin_lexString 0 rest
    exact this.map (fun value ↦ Token.string (String.ofList value)) (by rw [Nat.zero_add])
  case h_8 =>
    split
    · exact staysWithin_lexNumber first rest
    · split
      · exact (List.takeWhile_prefix _).length_le
      · exact Nat.zero_le _
  all_goals exact Nat.zero_le _

/-! ### Through the text -/

/-- Trivia is part of the text. -/
theorem triviaLength_le (comment : Bool) (text : List Char) :
    triviaLength comment text ≤ text.length := by
  fun_induction triviaLength comment text with
  | case1 => exact Nat.le_refl 0
  | case2 c cs ih => simp only [List.length_cons]; omega
  | case3 c cs _ ih => simp only [List.length_cons]; omega
  | case4 c cs _ _ ih => simp only [List.length_cons]; omega
  | case5 => exact Nat.zero_le _

/-- The place of the first character after a place that is no trivia. -/
def nextStart (text : List Char) (place : Nat) : Nat :=
  place + triviaLength false (text.drop place)

/-- The lexer goes through a text from a place on and comes to a result. It reads one token after
another, each from the place where the last one ended and to a place in the text or at its end,
until nothing but trivia is left or a token has a fault. -/
inductive Scans (text : List Char) : Nat → Except PlacedFault (List PlacedToken) → Prop where
  | finish {place : Nat} (hs : nextStart text place = text.length) : Scans text place (.ok [])
  | fault {place : Nat} {first : Char} {rest : List Char} {found : PlacedFault}
    (hd : text.drop (nextStart text place) = first :: rest)
    (hf : lexToken first rest = .error found)
    (hw : nextStart text place + found.place ≤ text.length) :
    Scans text place (.error ⟨nextStart text place + found.place, found.fault⟩)
  | token {place n : Nat} {first : Char} {rest : List Char} {token : Token}
    {result : Except PlacedFault (List PlacedToken)}
    (hd : text.drop (nextStart text place) = first :: rest)
    (ht : lexToken first rest = .ok (token, n))
    (hw : nextStart text place + 1 + n ≤ text.length)
    (next : Scans text (nextStart text place + 1 + n) result) :
    Scans text place (result.map fun tokens ↦ ⟨token, nextStart text place⟩ :: tokens)

/-- From any place of a text the lexer goes through what is left. -/
theorem scans_lexFrom {text : List Char} {place : Nat} (hp : place ≤ text.length) :
    Scans text place (lexFrom place (text.drop place)) := by
  have hle := triviaLength_le false (text.drop place)
  rw [List.length_drop] at hle
  cases hd : (text.drop place).drop (triviaLength false (text.drop place)) with
  | nil =>
    rw [lexFrom_of_drop_eq_nil hd]
    rw [List.drop_drop, List.drop_eq_nil_iff] at hd
    exact .finish (by unfold nextStart; omega)
  | cons first rest =>
    have hs : text.drop (nextStart text place) = first :: rest := by
      rw [nextStart, ← List.drop_drop, hd]
    have hlen : nextStart text place + 1 + rest.length = text.length := by
      have := congrArg List.length hs
      rw [List.length_drop, List.length_cons] at this
      omega
    have hw := staysWithin_lexToken first rest
    cases ht : lexToken first rest with
    | error found =>
      rw [lexFrom_of_drop_eq_error hd ht]
      rw [ht, StaysWithin] at hw
      exact .fault hs ht (by omega)
    | ok result =>
      obtain ⟨token, n⟩ := result
      rw [lexFrom_of_drop_eq_cons hd ht]
      rw [ht, StaysWithin] at hw
      have hrest : rest.drop n = text.drop (nextStart text place + 1 + n) := by
        rw [Nat.add_assoc, ← List.drop_drop, hs, Nat.add_comm 1, List.drop_succ_cons]
      have hnext : nextStart text place + 1 + n ≤ text.length := by omega
      rw [hrest]
      exact .token hs ht hnext (scans_lexFrom hnext)
termination_by text.length - place
decreasing_by
  simp only [nextStart] at hlen ⊢
  omega

/-- The lexer goes through every text. -/
theorem scans_lex (text : List Char) : Scans text 0 (lex text) :=
  scans_lexFrom (Nat.zero_le _)

/-- A fault that the lexer finds lies in the text or at its end. -/
theorem Scans.place_le {text : List Char} {place : Nat} {found : PlacedFault}
    {result : Except PlacedFault (List PlacedToken)} (h : Scans text place result)
    (hf : result = .error found) : found.place ≤ text.length := by
  induction h with
  | finish => cases hf
  | fault _ _ hw =>
    cases hf
    exact hw
  | @token _ _ _ _ _ result _ _ _ _ ih =>
    cases result with
    | error later =>
      cases hf
      exact ih rfl
    | ok tokens => cases hf

/-- A token starts at a character of the text. -/
theorem Scans.place_lt {text : List Char} {place : Nat} {tokens : List PlacedToken}
    {result : Except PlacedFault (List PlacedToken)} (h : Scans text place result)
    (ht : result = .ok tokens) : ∀ token ∈ tokens, token.place < text.length := by
  induction h generalizing tokens with
  | finish =>
    cases ht
    exact nofun
  | fault => cases ht
  | @token place n first rest token result hd _ _ _ ih =>
    cases result with
    | error later => cases ht
    | ok later =>
      cases ht
      intro t hm
      rcases List.mem_cons.mp hm with rfl | hm
      · apply Nat.lt_of_not_le
        intro hle
        rw [List.drop_eq_nil_of_le hle] at hd
        cases hd
      · exact ih rfl t hm

/-! ### Through the tokens -/

/-- A place is one of the tokens' places or the end of the text. -/
def IsPlace (stop : Nat) (tokens : List PlacedToken) (place : Nat) : Prop :=
  place = stop ∨ ∃ token ∈ tokens, token.place = place

/-- The parser keeps to the tokens it is given: what it leaves is the end of them and not all of
them, and a fault is placed at one of them or at the end of the text. -/
def KeepsTo {α : Type} (stop : Nat) (tokens : List PlacedToken) :
    Except PlacedFault (α × List PlacedToken) → Prop
  | .ok (_, left) => left <:+ tokens ∧ left.length < tokens.length
  | .error found => IsPlace stop tokens found.place

section Parser

variable {stop place : Nat} {first token : PlacedToken} {tokens rest left more : List PlacedToken}

/-- A place of fewer tokens is a place of more. -/
theorem IsPlace.mono (h : IsPlace stop rest place) (hs : rest ⊆ tokens) :
    IsPlace stop tokens place :=
  h.imp_right fun ⟨token, hm, hp⟩ ↦ ⟨token, hs hm, hp⟩

private theorem isPlace_of_mem (h : token ∈ tokens) : IsPlace stop tokens token.place :=
  .inr ⟨token, h, rfl⟩

private theorem KeepsTo.of_ok {α : Type} {result : Except PlacedFault (α × List PlacedToken)}
    (h : KeepsTo stop tokens result) {value : α} (hr : result = .ok (value, left)) :
    left <:+ tokens ∧ left.length < tokens.length := by
  subst hr
  exact h

private theorem KeepsTo.of_error {α : Type} {result : Except PlacedFault (α × List PlacedToken)}
    (h : KeepsTo stop tokens result) {found : PlacedFault} (hr : result = .error found) :
    IsPlace stop tokens found.place := by
  subst hr
  exact h

private theorem KeepsTo.mono {α : Type} {result : Except PlacedFault (α × List PlacedToken)}
    (h : KeepsTo stop rest result) (hs : rest <:+ tokens) : KeepsTo stop tokens result := by
  cases result with
  | error found => exact IsPlace.mono h hs.subset
  | ok read => exact ⟨h.1.trans hs, Nat.lt_of_lt_of_le h.2 hs.length_le⟩

private theorem KeepsTo.map {α β : Type} {result : Except PlacedFault (α × List PlacedToken)}
    (h : KeepsTo stop tokens result) (f : α → β) :
    KeepsTo stop tokens (result.map fun (value, left) ↦ (f value, left)) := by
  cases result with
  | error found => exact h
  | ok read => exact h

/-- What is met where something else is expected is the next token or the end of the text. -/
theorem isPlace_of_faultNext {α : Type} {fault : Option Token → SourceFault} {found : PlacedFault}
    (h : (faultNext stop fault rest : Except PlacedFault α) = .error found) :
    IsPlace stop rest found.place := by
  cases rest with
  | nil =>
    cases h
    exact .inl rfl
  | cons next rest =>
    cases h
    exact isPlace_of_mem List.mem_cons_self

private theorem keepsTo_faultNext {α : Type} (fault : Option Token → SourceFault)
    (hs : rest ⊆ tokens) : KeepsTo stop tokens
      (faultNext stop fault rest : Except PlacedFault (α × List PlacedToken)) := by
  cases h : (faultNext stop fault rest : Except PlacedFault (α × List PlacedToken)) with
  | error found => exact (isPlace_of_faultNext h).mono hs
  | ok read => exact absurd h faultNext_ne_ok

/-- Reading an argument keeps to the tokens. -/
theorem keepsTo_readArgument (stop : Nat) (first : PlacedToken) (rest : List PlacedToken) :
    KeepsTo stop (first :: rest) (readArgument stop first rest) := by
  have hall : KeepsTo stop (first :: rest)
      (.ok (Argument.null, rest) : Except PlacedFault (Argument × List PlacedToken)) :=
    ⟨List.suffix_cons first rest, Nat.lt_succ_self _⟩
  unfold readArgument
  split
  · exact hall
  · exact hall
  · exact hall
  · split
    · next dot name place rest =>
      refine ⟨?_, by simp only [List.length_cons]; omega⟩
      exact ((List.suffix_cons _ _).trans (List.suffix_cons _ _)).trans (List.suffix_cons _ _)
    · exact keepsTo_faultNext _ fun t ht ↦ List.mem_cons_of_mem _ (List.mem_cons_of_mem _ ht)
    · exact keepsTo_faultNext _ fun t ht ↦ List.mem_cons_of_mem _ ht
  · exact isPlace_of_mem List.mem_cons_self

/-- Reading arguments keeps to the tokens. -/
theorem keepsTo_readArguments (stop : Nat) (tokens : List PlacedToken) :
    KeepsTo stop tokens (readArguments stop tokens) := by
  fun_induction readArguments stop tokens with
  | case1 => exact .inl rfl
  | case2 first rest => exact ⟨List.suffix_cons _ _, Nat.lt_succ_self _⟩
  | case3 first rest _ found hr => exact (keepsTo_readArgument stop first rest).of_error hr
  | case4 => exact .inl rfl
  | case5 first rest _ argument separator left hr _ ih =>
    have h := (keepsTo_readArgument stop first rest).of_ok hr
    exact (ih.mono ((List.suffix_cons separator left).trans h.1)).map _
  | case6 first rest _ argument separator left hr _ =>
    have h := (keepsTo_readArgument stop first rest).of_ok hr
    exact ⟨(List.suffix_cons separator left).trans h.1, Nat.lt_of_succ_lt h.2⟩
  | case7 first rest _ argument separator left hr _ _ =>
    have h := (keepsTo_readArgument stop first rest).of_ok hr
    exact isPlace_of_mem (h.1.subset List.mem_cons_self)

/-- Arguments are placed at tokens. -/
theorem exists_of_mem_readArguments {arguments : List PlacedArgument}
    (h : readArguments stop tokens = .ok (arguments, left)) :
    ∀ argument ∈ arguments, ∃ token ∈ tokens, token.place = argument.place := by
  fun_induction readArguments stop tokens generalizing arguments left with
  | case1 => cases h
  | case2 =>
    cases h
    exact fun _ ha ↦ absurd ha List.not_mem_nil
  | case3 => cases h
  | case4 => cases h
  | case5 first rest _ argument separator left' hr _ ih =>
    obtain ⟨⟨later, _⟩, hl, he⟩ := map_eq_ok_iff.mp h
    cases he
    have hk := (keepsTo_readArgument stop first rest).of_ok hr
    intro a ha
    rcases List.mem_cons.mp ha with rfl | ha
    · exact ⟨first, List.mem_cons_self, rfl⟩
    · obtain ⟨token, hm, hp⟩ := ih hl a ha
      exact ⟨token, hk.1.subset (List.mem_cons_of_mem _ hm), hp⟩
  | case6 first rest =>
    cases h
    rw [List.forall_mem_singleton]
    exact ⟨first, List.mem_cons_self, rfl⟩
  | case7 => cases h

end Parser

/-! ### Clauses -/

section Clauses

variable {place : Nat} {arguments : List PlacedArgument} {found : PlacedFault}

private theorem exists_of_mapM_arguments {α : Type} {step : PlacedArgument → Except PlacedFault α}
    (hstep : ∀ argument found, step argument = .error found → argument.place = found.place)
    (h : arguments.mapM step = .error found) :
    ∃ argument ∈ arguments, argument.place = found.place := by
  obtain ⟨argument, hm, hs⟩ := exists_of_mapM_eq_error h
  exact ⟨argument, hm, hstep argument found hs⟩

private theorem exists_of_stringArguments {clause : String}
    (h : stringArguments clause arguments = .error found) :
    ∃ argument ∈ arguments, argument.place = found.place := by
  refine exists_of_mapM_arguments (fun argument found hs ↦ ?_) h
  split at hs <;> cases hs
  rfl

private theorem exists_of_numberArguments (h : numberArguments arguments = .error found) :
    ∃ argument ∈ arguments, argument.place = found.place := by
  refine exists_of_mapM_arguments (fun argument found hs ↦ ?_) h
  split at hs <;> cases hs
  rfl

private theorem exists_of_opcodeArguments (h : opcodeArguments arguments = .error found) :
    ∃ argument ∈ arguments, argument.place = found.place := by
  refine exists_of_mapM_arguments (fun argument found hs ↦ ?_) h
  split at hs <;> cases hs
  rfl

private theorem exists_of_flagArguments (h : flagArguments arguments = .error found) :
    ∃ argument ∈ arguments, argument.place = found.place := by
  obtain ⟨before, argument, after, flags, rfl, _, hs⟩ := foldlM_eq_error_iff.mp h
  have hm : argument ∈ before ++ argument :: after := by simp
  split at hs
  · split at hs
    · cases hs
    · cases hs
      exact ⟨argument, hm, rfl⟩
  · cases hs
    exact ⟨argument, hm, rfl⟩

private theorem eq_error_of_map {α β ε : Type} {result : Except ε α} {f : α → β} {error : ε}
    (h : result.map f = .error error) : result = .error error := by
  cases result with
  | error first => exact congrArg Except.error (Except.error.inj h)
  | ok value => cases h

/-- A clause is at fault at its name or at one of its arguments. -/
theorem place_of_addClause {predicate : Predicate} {name : String}
    (h : predicate.addClause place name arguments = .error found) :
    found.place = place ∨ ∃ argument ∈ arguments, argument.place = found.place := by
  unfold Predicate.addClause at h
  split at h
  · exact .inr (exists_of_flagArguments (eq_error_of_map h))
  · split at h
    · cases h
    · cases h
      exact .inl rfl
    · next earlier hs =>
      cases h
      exact .inr (exists_of_stringArguments hs)
  · exact .inr (exists_of_stringArguments (eq_error_of_map h))
  · exact .inr (exists_of_stringArguments (eq_error_of_map h))
  · exact .inr (exists_of_stringArguments (eq_error_of_map h))
  · exact .inr (exists_of_numberArguments (eq_error_of_map h))
  · exact .inr (exists_of_opcodeArguments (eq_error_of_map h))
  · cases h
    exact .inl rfl

/-- Reading clauses keeps to the tokens. -/
theorem keepsTo_readClauses (stop : Nat) (seen : List String) (predicate : Predicate)
    (tokens : List PlacedToken) :
    KeepsTo stop tokens (Predicate.readClauses stop seen predicate tokens) := by
  fun_induction Predicate.readClauses stop seen predicate tokens with
  | case1 => exact .inl rfl
  | case2 => exact ⟨List.suffix_cons _ _, Nat.lt_succ_self _⟩
  | case3 => exact .inr ⟨_, List.mem_cons_self, rfl⟩
  | case4 seen predicate name place _ openPlace rest found hr =>
    have h := (keepsTo_readArguments stop rest).of_error hr
    exact h.mono fun t ht ↦ List.mem_cons_of_mem _ (List.mem_cons_of_mem _ ht)
  | case5 seen predicate name place _ openPlace rest arguments left hr found ha =>
    rcases place_of_addClause ha with hp | ⟨argument, hm, hp⟩
    · exact .inr ⟨_, List.mem_cons_self, hp.symm⟩
    · obtain ⟨token, ht, hpt⟩ := exists_of_mem_readArguments hr argument hm
      exact .inr ⟨token, List.mem_cons_of_mem _ (List.mem_cons_of_mem _ ht), hpt.trans hp⟩
  | case6 seen predicate name place _ openPlace rest arguments left hr extended _ ih =>
    have h := (keepsTo_readArguments stop rest).of_ok hr
    exact ih.mono (h.1.trans ((List.suffix_cons _ _).trans (List.suffix_cons _ _)))
  | case7 => exact keepsTo_faultNext _ fun t ht ↦ List.mem_cons_of_mem _ ht
  | case8 => exact isPlace_of_mem List.mem_cons_self

end Clauses

/-- A fault that the parser finds is placed at a token or at the end of the text. -/
theorem isPlace_of_ofTokens {stop : Nat} {tokens : List PlacedToken} {found : PlacedFault}
    (h : Predicate.ofTokens stop tokens = .error found) : IsPlace stop tokens found.place := by
  have hskip (a b : PlacedToken) (rest : List PlacedToken) : rest ⊆ a :: b :: rest :=
    fun t ht ↦ List.mem_cons_of_mem _ (List.mem_cons_of_mem _ ht)
  unfold Predicate.ofTokens at h
  split at h
  · next rest =>
    have hk := keepsTo_readClauses stop [] {} rest
    split at h
    · next earlier hr =>
      cases h
      exact (hk.of_error hr).mono (hskip _ _ rest)
    · cases h
    · next next left hr =>
      cases h
      have hnext := (hk.of_ok hr).1.subset List.mem_cons_self
      exact (isPlace_of_mem hnext).mono (hskip _ _ rest)
  · exact (isPlace_of_faultNext h).mono (List.subset_cons_self _ _)
  · exact isPlace_of_faultNext h

/-! ### Diagnostics -/

/-- What is rejected has a fault, and its diagnostic says where. -/
theorem exists_of_language_eq_rejected {source : String} {diagnostic : Diagnostic}
    (h : Evaluator.language source = .rejected diagnostic) :
    ∃ found, Predicate.ofText source.toList = .error found ∧
      found.diagnose source.toList = diagnostic := by
  unfold Evaluator.language Predicate.ofSource at h
  cases ht : Predicate.ofText source.toList with
  | error found =>
    rw [ht] at h
    exact ⟨found, rfl, Evaluation.rejected.inj h⟩
  | ok predicate =>
    rw [ht] at h
    cases h

/-- The fault of a text that has tokens is at one of them or at the end of the text. -/
theorem isPlace_of_ofText {text : List Char} {tokens : List PlacedToken} {found : PlacedFault}
    (h : Predicate.ofText text = .error found) (hl : lex text = .ok tokens) :
    IsPlace text.length tokens found.place := by
  rw [Predicate.ofText, hl] at h
  exact isPlace_of_ofTokens h

/-- The fault of a text lies in it or at its end. -/
theorem place_le_of_ofText {text : List Char} {found : PlacedFault}
    (h : Predicate.ofText text = .error found) : found.place ≤ text.length := by
  cases hl : lex text with
  | error earlier =>
    rw [Predicate.ofText, hl] at h
    cases h
    exact (scans_lex text).place_le hl
  | ok tokens =>
    rcases isPlace_of_ofText h hl with hp | ⟨token, hm, hp⟩
    · exact Nat.le_of_eq hp
    · rw [← hp]
      exact Nat.le_of_lt ((scans_lex text).place_lt hl token hm)

/-- How the evaluation of a source text ends, and what its diagnostic points to. The lexer goes
through the text, and the parser keeps to whatever tokens it is given. -/
structure Diagnosed (source : String) (evaluation : Evaluation) : Prop where
  ends : evaluation ≠ .crashed
  /-- A diagnostic points to the place of the fault. If the text has tokens, one of them starts
  there or the text ends. -/
  points : ∀ diagnostic, evaluation = .rejected diagnostic → ∃ found before after,
    Predicate.ofText source.toList = .error found ∧ source.toList = before ++ after ∧
      before.length = found.place ∧ diagnostic.PointsAfter before ∧
      ∀ tokens, lex source.toList = .ok tokens →
        after = [] ∨ ∃ token ∈ tokens, token.place = before.length
  scans : Scans source.toList 0 (lex source.toList)
  keepsToArguments : ∀ stop tokens, KeepsTo stop tokens (readArguments stop tokens)
  keepsToClauses : ∀ stop seen predicate tokens,
    KeepsTo stop tokens (Predicate.readClauses stop seen predicate tokens)

/-- Whatever the source text: it is evaluated to an end, and where it is rejected the diagnostic
points into the text, to the start of a token or the end if the text has tokens at all. -/
theorem diagnosed_language (source : String) : Diagnosed source (Evaluator.language source) where
  ends := by
    unfold Evaluator.language
    split <;> exact nofun
  points := by
    intro diagnostic h
    obtain ⟨found, hf, rfl⟩ := exists_of_language_eq_rejected h
    have hlen := List.length_take_of_le (place_le_of_ofText hf)
    refine ⟨found, source.toList.take found.place, source.toList.drop found.place, hf,
      (List.take_append_drop _ _).symm, hlen, pointsAfter_diagnose source.toList found, ?_⟩
    intro tokens hl
    rcases isPlace_of_ofText hf hl with hp | ⟨token, hm, hp⟩
    · exact .inl (List.drop_eq_nil_of_le (Nat.le_of_eq hp.symm))
    · exact .inr ⟨token, hm, hp.trans hlen.symm⟩
  scans := scans_lex source.toList
  keepsToArguments := keepsTo_readArguments
  keepsToClauses := keepsTo_readClauses

-- An escape is at fault after its last character, what is missing after the trivia at the end.
example :
    Predicate.ofText "fingerprint\x7b\n \"a\\q".toList = .error ⟨18, .unknownEscape 'q'⟩ ∧
      Predicate.ofText "fingerprint //\n".toList = .error ⟨15, .expected .openBrace none⟩ := by
  cbv

end MethodPrint
