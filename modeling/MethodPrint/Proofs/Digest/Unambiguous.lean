import Mathlib.Data.List.Basic
import MethodPrint.Proofs.Digest.Bytes
import MethodPrint.Proofs.Index.Build
import MethodPrint.Proofs.Json.Compact
import MethodPrint.Proofs.Stored.Recovery
import MethodPrint.Session.Basic

/-!
# Digests stand for entries

The bytes that a digest is made from determine the identifiers and features of an index. The byte
that ends a method occurs in no text. An identifier may contain the byte that ends a feature, and
whatever looks like a feature, but the features are found from the end of the method: the first of
them states the access flags, and no other does.
-/

namespace MethodPrint

open Json

/-! ### Stored features -/

private theorem Feature.eq_of_tree {a b : Feature} (ha : a.IsStorable) (hb : b.IsStorable)
    (h : a.stored.tree = b.stored.tree) : a = b := by
  have hread := Feature.recovers ha (show 0 + 2 < nestingLimit by decide) _ (.refl _)
  rw [h, Feature.recovers hb (by decide) _ (.refl _)] at hread
  exact (Except.ok.inj hread).symm

/-- The compact text of a stored feature determines it, even if the feature holds a position beyond
64 bits: positions are told apart by their digits. -/
theorem Feature.compactText_inj {a b : Feature} (h : a.stored.compactText = b.stored.compactText) :
    a = b := by
  have ht := tree_eq_of_compactText h
  have hkind : a.kind = b.kind := by
    simp only [Feature.stored, Value.tree, fieldsTree, Tree.object.injEq, Entries.entry.injEq,
      Tree.string.injEq, Except.ok.injEq, true_and] at ht
    rw [← Option.some.injEq, ← FeatureKind.ofName?_name, ht.1, FeatureKind.ofName?_name]
  -- Only a position can be too long to be read back.
  cases a with
  | opcodeAt i s =>
    cases b with
    | opcodeAt j t =>
      have hopcode : s = t := by
        simp only [Feature.stored, Feature.storedValue, Value.tree, fieldsTree, Tree.object.injEq,
          Entries.entry.injEq, Tree.string.injEq, Except.ok.injEq, true_and, and_true] at ht
        exact ht.2.2
      replace h := String.ofList_injective h
      simp only [Feature.stored, Feature.storedValue, storedNat, Feature.kind, compact,
        compactFields, List.append_assoc, List.cons_append, List.cons.injEq,
        List.append_cancel_left_eq, true_and] at h
      have hindex := numberText_append_inj (endsNumber_cons rfl (by decide) _)
        (endsNumber_cons rfl (by decide) _) h
      rw [hindex, hopcode]
    | _ => cases hkind
  | _ => cases b with
    | opcodeAt j t => cases hkind
    | _ => exact Feature.eq_of_tree trivial trivial ht

/-- The bytes of a stored feature. -/
def featureBytes (feature : Feature) : List UInt8 := utf8Bytes feature.stored.compactText

private theorem zero_not_mem_featureBytes (feature : Feature) : 0 ∉ featureBytes feature := by
  apply zero_not_mem_utf8Bytes
  rw [Value.compactText, String.toList_ofList]
  intro h
  exact absurd (isLine_compact feature.stored _ h) (by decide)

/-! ### Features of a method -/

/-- The bytes of features, each ended by a zero. -/
def featureListBytes (features : List Feature) : List UInt8 :=
  features.flatMap fun feature ↦ featureBytes feature ++ [0]

/-- The bytes of a method are those of its identifier and of its features, and the byte that ends
it. -/
theorem digestEntry_eq (id : MethodId) (features : List Feature) :
    digestEntry id features = utf8Bytes id.text ++ 0 :: featureListBytes features ++ [0xff] := rfl

private theorem featureListBytes_concat (features : List Feature) (last : Feature) :
    featureListBytes (features ++ [last]) =
      featureListBytes features ++ featureBytes last ++ [0] := by
  simp [featureListBytes]

private theorem split_first {separator : UInt8} : ∀ {a b r s : List UInt8}, separator ∉ a →
    separator ∉ b → a ++ separator :: r = b ++ separator :: s → a = b ∧ r = s
  | [], [], _, _, _, _, h => ⟨rfl, (List.cons.inj h).2⟩
  | [], _ :: _, _, _, _, hb, h => absurd (List.mem_cons.mpr (.inl (List.cons.inj h).1)) hb
  | _ :: _, [], _, _, ha, _, h => absurd (List.mem_cons.mpr (.inl (List.cons.inj h).1.symm)) ha
  | x :: a, y :: b, _, _, ha, hb, h => by
    obtain ⟨hx, h⟩ := List.cons.inj h
    obtain ⟨ha, hr⟩ := split_first (fun hm ↦ ha (List.mem_cons_of_mem x hm))
      (fun hm ↦ hb (List.mem_cons_of_mem y hm)) h
    exact ⟨by rw [hx, ha], hr⟩

private theorem split_last {separator : UInt8} {a b r s : List UInt8} (hr : separator ∉ r)
    (hs : separator ∉ s) (h : a ++ separator :: r = b ++ separator :: s) : a = b ∧ r = s := by
  replace h := congrArg List.reverse h
  simp only [List.reverse_append, List.reverse_cons, List.append_assoc, List.singleton_append] at h
  obtain ⟨hr, ha⟩ := split_first (by simpa using hr) (by simpa using hs) h
  exact ⟨List.reverse_injective ha, List.reverse_injective hr⟩

private theorem exists_concat_zero (id : List UInt8) (features : List Feature) :
    ∃ bytes, id ++ 0 :: featureListBytes features = bytes ++ [0] := by
  cases features using List.reverseRecOn with
  | nil => exact ⟨id, rfl⟩
  | append_singleton features last _ =>
    exact ⟨id ++ 0 :: (featureListBytes features ++ featureBytes last), by
      simp [featureListBytes_concat]⟩

private theorem suffix_of_bytes {id other : List UInt8} {features others : List Feature}
    (h : id ++ 0 :: featureListBytes features = other ++ 0 :: featureListBytes others) :
    features <:+ others ∨ others <:+ features := by
  -- The last features are equal, and so are the bytes before them, which end with a zero again.
  induction features using List.reverseRecOn generalizing others with
  | nil => exact .inl List.nil_suffix
  | append_singleton features last ih =>
    cases others using List.reverseRecOn with
    | nil => exact .inr List.nil_suffix
    | append_singleton others final _ =>
      obtain ⟨a, ha⟩ := exists_concat_zero id features
      obtain ⟨b, hb⟩ := exists_concat_zero other others
      simp only [featureListBytes_concat, ← List.append_assoc, ← List.cons_append,
        List.append_cancel_right_eq] at h
      rw [ha, hb, List.append_assoc, List.append_assoc, List.singleton_append,
        List.singleton_append] at h
      obtain ⟨hinit, hlast⟩ := split_last (zero_not_mem_featureBytes last)
        (zero_not_mem_featureBytes final) h
      have hequal : last = final := Feature.compactText_inj (utf8Bytes_inj.mp hlast)
      rw [hequal]
      rcases ih (by rw [ha, hb, hinit]) with ⟨front, rfl⟩ | ⟨front, rfl⟩
      · exact .inl ⟨front, by simp⟩
      · exact .inr ⟨front, by simp⟩

/-- The first feature states the access flags, and no other does. -/
def FlagsFirst (features : List Feature) : Prop :=
  ∃ flags rest, features = .accessFlags flags :: rest ∧ ∀ other, .accessFlags other ∉ rest

/-- Extraction states the access flags first and only once. -/
theorem Method.flagsFirst_features (window : Nat) (method : Method) :
    FlagsFirst (method.features window) := by
  refine ⟨AccessFlag.named method.accessFlags, _, rfl, fun other hm ↦ ?_⟩
  have hfeature : Feature.accessFlags other ∈ method.features window := List.mem_cons_of_mem _ hm
  have hmet : AccessFlag.named method.accessFlags = other :=
    (mem_features_iff_metBy (fun hk ↦ by cases hk)).mp hfeature
  subst hmet
  exact (List.nodup_cons.mp (method.nodup_features window)).1 hm

private theorem eq_of_suffix {features others : List Feature} (hf : FlagsFirst features)
    (ho : FlagsFirst others) (h : features <:+ others) : features = others := by
  obtain ⟨front, rfl⟩ := h
  cases front with
  | nil => rfl
  | cons first front =>
    obtain ⟨flags, rest, rfl, _⟩ := hf
    obtain ⟨_, _, he, hn⟩ := ho
    obtain ⟨_, rfl⟩ := List.cons.inj he
    exact absurd (List.mem_append_right front List.mem_cons_self) (hn flags)

/-- The bytes of a method determine its identifier and its features. -/
theorem eq_of_digestEntry {id other : MethodId} {features others : List Feature}
    (hf : FlagsFirst features) (ho : FlagsFirst others)
    (h : utf8Bytes id.text ++ 0 :: featureListBytes features =
      utf8Bytes other.text ++ 0 :: featureListBytes others) :
    id = other ∧ features = others := by
  have he : features = others := by
    rcases suffix_of_bytes h with hs | hs
    · exact eq_of_suffix hf ho hs
    · exact (eq_of_suffix ho hf hs).symm
  subst he
  have hid := utf8Bytes_inj.mp (List.append_cancel_right h)
  cases id
  cases other
  exact ⟨congrArg MethodId.mk hid, rfl⟩

/-! ### Entries -/

private theorem end_not_mem_method (id : MethodId) (features : List Feature) :
    0xff ∉ utf8Bytes id.text ++ 0 :: featureListBytes features := by
  simp only [List.mem_append, List.mem_cons, not_or]
  refine ⟨not_mem_utf8Bytes _, by decide, fun h ↦ ?_⟩
  obtain ⟨feature, _, hm⟩ := List.mem_flatMap.mp h
  rcases List.mem_append.mp hm with hm | hm
  · exact not_mem_utf8Bytes _ hm
  · exact absurd (List.mem_singleton.mp hm) (by decide)

/-- The bytes of entries determine them, if the features of each state the access flags first and
only once. -/
theorem eq_of_digestInput {entries others : List (MethodId × List Feature)}
    (he : ∀ entry ∈ entries, FlagsFirst entry.2) (ho : ∀ entry ∈ others, FlagsFirst entry.2)
    (h : digestInput entries = digestInput others) : entries = others := by
  induction entries generalizing others with
  | nil =>
    cases others with
    | nil => rfl
    | cons entry others => simp [digestInput, digestEntry] at h
  | cons entry entries ih =>
    cases others with
    | nil => simp [digestInput, digestEntry] at h
    | cons other others =>
      obtain ⟨hentry, he⟩ := List.forall_mem_cons.mp he
      obtain ⟨hother, ho⟩ := List.forall_mem_cons.mp ho
      have hsplit : (utf8Bytes entry.1.text ++ 0 :: featureListBytes entry.2) ++
          0xff :: digestInput entries =
          (utf8Bytes other.1.text ++ 0 :: featureListBytes other.2) ++
            0xff :: digestInput others := by
        simpa [digestInput, digestEntry_eq] using h
      obtain ⟨hmethod, hrest⟩ := split_first (end_not_mem_method entry.1 entry.2)
        (end_not_mem_method other.1 other.2) hsplit
      obtain ⟨hid, hfeatures⟩ := eq_of_digestEntry hentry hother hmethod
      rw [Prod.ext hid hfeatures, ih he ho hrest]

namespace Index

/-- The features of every entry of an index state the access flags first and only once. -/
theorem Represents.flagsFirst {window : Nat} {members : List Member} {index : Index}
    (h : index.Represents window members) : ∀ entry ∈ index.entries, FlagsFirst entry.2 := by
  intro entry hm
  rw [entries, h.methods_eq, List.mem_map] at hm
  obtain ⟨_, hm, rfl⟩ := hm
  obtain ⟨method, _, rfl⟩ := List.mem_map.mp hm
  exact method.flagsFirst_features window

end Index

/-- Two messages that have the same hash though they are different. -/
def Sha256.Collide (message other : List UInt8) : Prop :=
  message ≠ other ∧ Sha256.hash message = Sha256.hash other

/-- Whatever corpora two indexes are built from, and with whatever windows: their digests are made
from the same bytes only if they have the same identifiers and features in the same order. Snapshots
of them have the same digest only then, unless the bytes collide. -/
theorem Index.entries_eq_of_digest {corpusId otherId : String} {window otherWindow : Nat}
    {members others : List Member} {index other : Index}
    (hb : build corpusId window members = .ok index)
    (ho : build otherId otherWindow others = .ok other) :
    (digestInput index.entries = digestInput other.entries → index.entries = other.entries) ∧
      ∀ session otherSession : Session,
        (session.publish index).2.digest = (otherSession.publish other).2.digest →
        ¬Sha256.Collide (digestInput index.entries) (digestInput other.entries) →
        index.entries = other.entries := by
  have hentries := eq_of_digestInput (represents_of_build hb).flagsFirst
    (represents_of_build ho).flagsFirst
  refine ⟨hentries, fun session otherSession hd hc ↦ hentries ?_⟩
  have hhash := hexText_inj.mp hd
  by_contra hne
  exact hc ⟨hne, hhash⟩

/-- Two methods of which one has the first feature of the other, with the bytes around it, in its
identifier: the digests are made from different bytes, and are different unless these collide. -/
theorem Index.entries_eq_of_digest_disguised :
    let plain : Method := { id := ⟨"LA;"⟩, returnType := "V" }
    let disguised : Method :=
      { id := ⟨"LA;\x00\x7b\"kind\":\"access_flags\",\"value\":0\x7d"⟩, returnType := "V" }
    ∃ index other, build "plain" 0 [.method plain] = .ok index ∧
      build "disguised" 1 [.method disguised] = .ok other ∧ index.entries ≠ other.entries ∧
      digestInput index.entries ≠ digestInput other.entries ∧
      ∀ session otherSession : Session,
        (session.publish index).2.digest = (otherSession.publish other).2.digest →
        Sha256.Collide (digestInput index.entries) (digestInput other.entries) := by
  intro plain disguised
  obtain ⟨index, hb⟩ : ∃ index, build "plain" 0 [.method plain] = .ok index :=
    exists_build "plain" 0 (by decide) (by decide) (by decide) (by decide)
  obtain ⟨other, ho⟩ : ∃ index, build "disguised" 1 [.method disguised] = .ok index :=
    exists_build "disguised" 1 (by decide) (by decide) (by decide) (by decide)
  have hne : index.entries ≠ other.entries := by
    rw [entries, entries, (represents_of_build hb).methods_eq, (represents_of_build ho).methods_eq]
    decide
  obtain ⟨hinput, hdigest⟩ := entries_eq_of_digest hb ho
  refine ⟨index, other, hb, ho, hne, fun h ↦ hne (hinput h), fun session otherSession hd ↦ ?_⟩
  by_contra hc
  exact hne (hdigest session otherSession hd hc)

end MethodPrint
