import Graft.Payload
import Mathlib.Data.List.Basic

/-!
# The grammar of fragment files

`Payload.violations` lists what is wrong with a value, check by check, and each check has nothing to
say of values that are not of its type. What is left when no check has anything to say is a grammar,
and it is written down here without any check: what keys an object may and must have, and what
stands under them.

> `validate_eq_ok_iff`: the values that are accepted are those of the grammar.

Every check comes with a lemma that says when it is passed; they are collected for `simp`, and the
productions of the grammar follow from them one by one.
-/

namespace Graft

namespace Table

variable {α : Type} {key : Text} {table : Table α}

/-- A key has a value if it is one of the keys. -/
theorem mem_keys_iff : key ∈ keys table ↔ ∃ value, get? key table = some value := by
  induction table with
  | nil => simp [keys, get?]
  | cons e rest ih =>
    show key ∈ e.1 :: keys rest ↔ _
    rw [List.mem_cons, ih, get?]
    by_cases h : e.1 = key
    · simp [h]
    · simp [h, Ne.symm h]

end Table

namespace Payload

open Check

variable {v w : Json} {t key : Text}

/-! ## Keys -/

/-- An object with no keys but some. -/
def IsObjectOf (keys : List Text) (v : Json) : Prop :=
  ∃ fields, v = .obj fields ∧ ∀ e ∈ fields, e.1 ∈ keys

/-- There is a value of a kind under a key. -/
def Must (key : Text) (P : Json → Prop) (v : Json) : Prop :=
  ∃ w, v.get? key = some w ∧ P w

/-- If there is a value under a key, it is of a kind. -/
def May (key : Text) (P : Json → Prop) (v : Json) : Prop :=
  ∀ w, v.get? key = some w → P w

theorem must_iff {P : Json → Prop} :
    Must key P v ↔ (∃ w, v.get? key = some w) ∧ May key P v := by
  constructor
  · rintro ⟨w, hw, hP⟩
    refine ⟨⟨w, hw⟩, fun w' hw' => ?_⟩
    rw [hw] at hw'
    exact Option.some.inj hw' ▸ hP
  · rintro ⟨⟨w, hw⟩, hmay⟩
    exact ⟨w, hw, hmay w hw⟩

/-! ## When checks are passed -/

namespace Check

@[simp] theorem isText_eq_nil_iff : isText v = [] ↔ ∃ t, v = .str t := by
  cases v <;> simp [isText, here]

@[simp] theorem isTextOrNull_eq_nil_iff : isTextOrNull v = [] ↔ v = .null ∨ ∃ t, v = .str t := by
  cases v <;> simp [isTextOrNull, here]

@[simp] theorem isArray_eq_nil_iff : isArray v = [] ↔ ∃ vs, v = .arr vs := by
  cases v <;> simp [isArray, here]

@[simp] theorem isObject_eq_nil_iff : isObject v = [] ↔ ∃ fields, v = .obj fields := by
  cases v <;> simp [isObject, here]

@[simp] theorem notEmptyText_eq_nil_iff : notEmptyText v = [] ↔ v ≠ .str [] := by
  unfold notEmptyText
  split <;> simp_all [here]

@[simp] theorem notEmptyArray_eq_nil_iff : notEmptyArray v = [] ↔ v ≠ .arr [] := by
  unfold notEmptyArray
  split <;> simp_all [here]

@[simp] theorem notEmptyObject_eq_nil_iff : notEmptyObject v = [] ↔ v ≠ .obj [] := by
  unfold notEmptyObject
  split <;> simp_all [here]

@[simp] theorem matching_eq_nil_iff {pattern : Text} {p : Text → Bool} :
    matching pattern p v = [] ↔ ∀ t, v = .str t → p t = true := by
  cases v <;> simp [matching, here]

@[simp] theorem isConstant_eq_nil_iff : isConstant t v = [] ↔ v = .str t := by
  cases v <;> simp [isConstant, here]

@[simp] theorem isOneOf_eq_nil_iff {choices : List Text} :
    isOneOf choices v = [] ↔ ∃ t ∈ choices, v = .str t := by
  cases v <;> simp [isOneOf, here]

@[simp] theorem hasKeys_eq_nil_iff {keys : List Text} : hasKeys keys v = [] ↔
    ∀ fields, v = .obj fields → ∀ k ∈ keys, ∃ w, v.get? k = some w := by
  cases v with
  | obj fields => simp [hasKeys, here, ← Table.mem_keys_iff, Json.get?]
  | _ => simp [hasKeys]

@[simp] theorem onlyKeys_eq_nil_iff {keys : List Text} :
    onlyKeys keys v = [] ↔ ∀ e ∈ v.fields, e.1 ∈ keys := by
  cases v with
  | obj fields =>
    have hextra : ((Table.keys fields).filter (!keys.elem ·)).isEmpty = true ↔
        ∀ e ∈ fields, e.1 ∈ keys := by
      simp [Table.keys]
    rw [Json.fields, ← hextra, onlyKeys]
    split
    · next h => simp only [h]
    · next h => exact iff_of_false (List.cons_ne_nil _ _) h
  | _ => simp [onlyKeys, Json.fields]

@[simp] theorem atKey_eq_nil_iff {check : Check} :
    atKey key check v = [] ↔ May key (check · = []) v := by
  unfold atKey May
  cases v.get? key <;> simp

@[simp] theorem eachItem_eq_nil_iff {check : Check} :
    eachItem check v = [] ↔ ∀ w ∈ v.items, check w = [] := by
  have hall : ∀ n (vs : List Json), inItems check n vs = [] ↔ ∀ w ∈ vs, check w = [] := by
    intro n vs
    induction vs generalizing n with
    | nil => simp [inItems]
    | cons w ws ih => simp [inItems, ih]
  exact hall 0 v.items

@[simp] theorem eachField_eq_nil_iff {check : Check} :
    eachField check v = [] ↔ ∀ e ∈ v.fields, check e.2 = [] := by
  simp [eachField]

@[simp] theorem eachKey_eq_nil_iff {check : Check} :
    eachKey check v = [] ↔ ∀ e ∈ v.fields, check (.str e.1) = [] := by
  simp [eachKey]

@[simp] theorem all_nil_eq_nil : all [] v = [] := rfl

@[simp] theorem all_cons_eq_nil_iff {check : Check} {checks : List Check} :
    all (check :: checks) v = [] ↔ check v = [] ∧ all checks v = [] := by
  simp [all]

end Check

theorem leastOf_eq_none_iff {vs : List Violation} : Violation.leastOf vs = none ↔ vs = [] := by
  cases vs with
  | nil => simp [Violation.leastOf]
  | cons v vs =>
    rw [Violation.leastOf]
    cases Violation.leastOf vs <;> simp

/-- What is reported is one of the violations. -/
theorem mem_of_leastOf {vs : List Violation} {w : Violation} (h : Violation.leastOf vs = some w) :
    w ∈ vs := by
  induction vs generalizing w with
  | nil => cases h
  | cons v vs ih =>
    rw [Violation.leastOf] at h
    cases hrest : Violation.leastOf vs with
    | none =>
      rw [hrest] at h
      cases h
      exact List.mem_cons_self
    | some u =>
      rw [hrest] at h
      have hmem := ih hrest
      dsimp only at h
      split at h
      · cases h
        exact List.mem_cons_of_mem v hmem
      · cases h
        exact List.mem_cons_self

theorem validate_eq_ok : validate v = .ok () ↔ violations v = [] := by
  rw [← leastOf_eq_none_iff, validate]
  cases Violation.leastOf (violations v) <;> simp

/-- The checks that every object of the format starts with. -/
theorem object_eq_nil_iff {required keys : List Text} {checks : List Check} :
    all (isObject :: hasKeys required :: onlyKeys keys :: checks) v = [] ↔
      IsObjectOf keys v ∧ (∀ k ∈ required, ∃ w, v.get? k = some w) ∧ all checks v = [] := by
  simp only [all_cons_eq_nil_iff, isObject_eq_nil_iff, hasKeys_eq_nil_iff, onlyKeys_eq_nil_iff]
  constructor
  · rintro ⟨⟨fields, rfl⟩, hthere, honly, hR⟩
    exact ⟨⟨fields, rfl, honly⟩, hthere fields rfl, hR⟩
  · rintro ⟨⟨fields, rfl, honly⟩, hthere, hR⟩
    exact ⟨⟨fields, rfl⟩, fun _ _ => hthere, honly, hR⟩

/-! ## Productions -/

/-- A text. -/
def IsText (v : Json) : Prop :=
  ∃ t, v = .str t

/-- A text that is not empty. -/
def IsFilled (v : Json) : Prop :=
  ∃ t, v = .str t ∧ t ≠ []

/-- An array of texts that are not empty. -/
def AreFilled (v : Json) : Prop :=
  ∃ vs, v = .arr vs ∧ ∀ w ∈ vs, IsFilled w

/-- A text, and a line feed behind it or not. -/
def Ended (P : Text → Prop) (t : Text) : Prop :=
  ∃ u, P u ∧ (t = u ∨ t = u ++ [.char '\n'])

/-- Some characters of one line. -/
def IsLine (t : Text) : Prop :=
  t ≠ [] ∧ .char '\n' ∉ t

/-- A letter of the basic alphabet or an underscore, and such characters and digits behind it. -/
def IsName (t : Text) : Prop :=
  ∃ c r, t = c :: r ∧ (c.isAlpha = true ∨ c = .char '_') ∧
    ∀ d ∈ r, d.isAlphanum = true ∨ d = .char '_'

/-- An anchor. It names a block if it is meant for one. -/
structure IsAnchor (v : Json) : Prop where
  object : IsObjectOf ["kind".toText, "block".toText] v
  kind : Must "kind".toText (fun w => w = .str "block".toText ∨ w = .str "eof".toText) v
  block : May "block".toText IsFilled v
  named : v.get? "kind".toText = some (.str "block".toText) → ∃ w, v.get? "block".toText = some w

/-- A fragment. -/
structure IsFragment (v : Json) : Prop where
  object : IsObjectOf ["marker".toText, "template".toText, "anchor".toText, "required".toText,
    "block".toText, "after".toText, "description".toText] v
  marker : Must "marker".toText (fun w => ∃ t, w = .str t ∧ Ended IsLine t) v
  template : Must "template".toText IsFilled v
  anchor : Must "anchor".toText IsAnchor v
  required : May "required".toText AreFilled v
  block : May "block".toText (fun w => w = .null ∨ IsFilled w) v
  after : May "after".toText AreFilled v
  description : May "description".toText IsText v

/-- The values of a version set under their names, of which there is one at least. -/
def AreVersions (v : Json) : Prop :=
  ∃ fields, v = .obj fields ∧ fields ≠ [] ∧ ∀ e ∈ fields, Ended IsName e.1 ∧ IsFilled e.2

/-- A fragment file. -/
structure IsPayload (v : Json) : Prop where
  object : IsObjectOf ["contract".toText, "fragments".toText, "version_sets".toText] v
  contract : v.get? "contract".toText = some (.str "fragment_set/1.0".toText)
  fragments : Must "fragments".toText (fun w => ∃ vs, w = .arr vs ∧ vs ≠ [] ∧
    ∀ f ∈ vs, IsFragment f) v
  versionSets : May "version_sets".toText (fun w => ∃ sets, w = .obj sets ∧
    ∀ e ∈ sets, AreVersions e.2) v

/-! ## Accepted values -/

theorem ended_iff {P : Text → Prop} (hP : ∀ u, ¬ P (u ++ [.char '\n'])) :
    Ended P t ↔ P (dropFinalLineFeed t) := by
  unfold dropFinalLineFeed
  constructor
  · rintro ⟨u, hu, rfl | rfl⟩
    · rw [if_neg]
      · exact hu
      · intro hlast
        obtain ⟨front, rfl⟩ := List.getLast?_eq_some_iff.1 hlast
        exact hP front hu
    · rw [List.getLast?_concat, if_pos rfl, List.dropLast_concat]
      exact hu
  · intro h
    split at h
    · next hlast =>
      obtain ⟨front, rfl⟩ := List.getLast?_eq_some_iff.1 hlast
      rw [List.dropLast_concat] at h
      exact ⟨front, h, .inr rfl⟩
    · exact ⟨t, h, .inl rfl⟩

theorem isOneLine_iff : isOneLine t = true ↔ Ended IsLine t := by
  rw [ended_iff fun u hu => hu.2 (by simp)]
  have hmem : ∀ u : Text, (∀ c ∈ u, ¬ c = .char '\n') ↔ .char '\n' ∉ u := fun u =>
    ⟨fun h hmem => h _ hmem rfl, fun h c hc heq => h (heq ▸ hc)⟩
  simp [isOneLine, IsLine, hmem]

theorem isIdentifier_iff : isIdentifier t = true ↔ Ended IsName t := by
  have hfeed : ∀ u, ¬ IsName (u ++ [.char '\n']) := by
    rintro u ⟨c, r, hu, hc, hr⟩
    have hmem : .char '\n' ∈ c :: r := by
      rw [← hu]
      simp
    rcases List.mem_cons.1 hmem with rfl | hmem
    · revert hc
      decide
    · have := hr _ hmem
      revert this
      decide
  rw [ended_iff hfeed, isIdentifier]
  cases dropFinalLineFeed t with
  | nil => simp [IsName]
  | cons c r => simp [IsName, Text.isIdentifierStart, Text.isIdentifierPart]

theorem filledText_eq_nil_iff : filledText v = [] ↔ IsFilled v := by
  simp only [filledText, all_cons_eq_nil_iff, all_nil_eq_nil, and_true,
    isText_eq_nil_iff, notEmptyText_eq_nil_iff]
  constructor
  · rintro ⟨⟨t, rfl⟩, hne⟩
    exact ⟨t, rfl, by simpa using hne⟩
  · rintro ⟨t, rfl, hne⟩
    exact ⟨⟨t, rfl⟩, by simpa using hne⟩

theorem filledTexts_eq_nil_iff : filledTexts v = [] ↔ AreFilled v := by
  simp only [filledTexts, all_cons_eq_nil_iff, all_nil_eq_nil, and_true,
    isArray_eq_nil_iff, eachItem_eq_nil_iff, filledText_eq_nil_iff]
  constructor
  · rintro ⟨⟨vs, rfl⟩, h⟩
    exact ⟨vs, rfl, h⟩
  · rintro ⟨vs, rfl, h⟩
    exact ⟨⟨vs, rfl⟩, h⟩

/-- An anchor that may be meant for a block is one whose kind, if it has one, is that. -/
theorem namesBlock_eq_nil_iff : namesBlock v = [] ↔
    (May "kind".toText (· = .str "block".toText) v → hasKeys ["block".toText] v = []) := by
  unfold namesBlock May
  cases v.get? "kind".toText with
  | none => exact ⟨fun h _ => h, fun h => h fun w hw => by cases hw⟩
  | some kind =>
    cases kind with
    | str t =>
      dsimp only
      by_cases ht : t = "block".toText
      · rw [if_pos ht, ht]
        exact ⟨fun h _ => h, fun h => h fun w hw => (Option.some.inj hw).symm⟩
      · rw [if_neg ht]
        exact ⟨fun _ h => absurd (Json.str.inj (h _ rfl)) ht, fun _ => rfl⟩
    | _ => exact ⟨fun _ h => (nomatch h _ rfl), fun _ => rfl⟩

theorem anchor_eq_nil_iff : anchor v = [] ↔ IsAnchor v := by
  rw [anchor, object_eq_nil_iff]
  simp only [all_cons_eq_nil_iff, all_nil_eq_nil, and_true, atKey_eq_nil_iff,
    isOneOf_eq_nil_iff, filledText_eq_nil_iff, namesBlock_eq_nil_iff, hasKeys_eq_nil_iff,
    List.mem_cons, List.not_mem_nil, or_false, forall_eq, exists_eq_or_imp, exists_eq_left]
  constructor
  · rintro ⟨hobject, hthere, hkind, hblock, hnames⟩
    refine ⟨hobject, must_iff.2 ⟨hthere, hkind⟩, hblock, fun hnamed => ?_⟩
    obtain ⟨fields, hv, -⟩ := hobject
    refine hnames (fun w hw => ?_) fields hv
    rw [hnamed] at hw
    exact (Option.some.inj hw).symm
  · rintro ⟨hobject, hkind, hblock, hnamed⟩
    obtain ⟨hthere, hmay⟩ := must_iff.1 hkind
    refine ⟨hobject, hthere, hmay, hblock, fun hmeant _ _ => hnamed ?_⟩
    obtain ⟨kind, hget⟩ := hthere
    rw [hget, hmeant kind hget]

/-- A text of one line is not empty. -/
theorem isText_line_iff : (∃ t, v = .str t) ∧ v ≠ .str [] ∧
    (∀ t, v = .str t → Ended IsLine t) ↔ ∃ t, v = .str t ∧ Ended IsLine t := by
  constructor
  · rintro ⟨⟨t, rfl⟩, -, hline⟩
    exact ⟨t, rfl, hline t rfl⟩
  · rintro ⟨t, rfl, hline⟩
    refine ⟨⟨t, rfl⟩, ?_, ?_⟩
    · rintro ⟨⟩
      obtain ⟨u, ⟨hne, -⟩, rfl | hu⟩ := hline
      · exact hne rfl
      · simp at hu
    · rintro _ ⟨⟩
      exact hline

theorem isTextOrNull_filled_iff : (v = .null ∨ ∃ t, v = .str t) ∧ v ≠ .str [] ↔
    v = .null ∨ IsFilled v := by
  constructor
  · rintro ⟨rfl | ⟨t, rfl⟩, hne⟩
    · exact .inl rfl
    · exact .inr ⟨t, rfl, by simpa using hne⟩
  · rintro (rfl | ⟨t, rfl, hne⟩)
    · exact ⟨.inl rfl, by simp⟩
    · exact ⟨.inr ⟨t, rfl⟩, by simpa using hne⟩

theorem fragment_eq_nil_iff : fragment v = [] ↔ IsFragment v := by
  rw [fragment, object_eq_nil_iff]
  simp only [all_cons_eq_nil_iff, all_nil_eq_nil, and_true, atKey_eq_nil_iff,
    filledText_eq_nil_iff, filledTexts_eq_nil_iff, anchor_eq_nil_iff, isText_eq_nil_iff,
    notEmptyText_eq_nil_iff, matching_eq_nil_iff, isTextOrNull_eq_nil_iff, isOneLine_iff,
    isText_line_iff, isTextOrNull_filled_iff, List.forall_mem_cons]
  constructor
  · rintro ⟨hobject, ⟨hmarker', htemplate', hanchor', -⟩, hmarker, htemplate, hanchor, hrequired,
      hblock, hafter, hdescription⟩
    exact ⟨hobject, must_iff.2 ⟨hmarker', hmarker⟩, must_iff.2 ⟨htemplate', htemplate⟩,
      must_iff.2 ⟨hanchor', hanchor⟩, hrequired, hblock, hafter, hdescription⟩
  · rintro ⟨hobject, hmarker, htemplate, hanchor, hrequired, hblock, hafter, hdescription⟩
    obtain ⟨hmarker', hmarker⟩ := must_iff.1 hmarker
    obtain ⟨htemplate', htemplate⟩ := must_iff.1 htemplate
    obtain ⟨hanchor', hanchor⟩ := must_iff.1 hanchor
    exact ⟨hobject, ⟨hmarker', htemplate', hanchor', nofun⟩, hmarker, htemplate, hanchor,
      hrequired, hblock, hafter, hdescription⟩

theorem versions_eq_nil_iff : versions v = [] ↔ AreVersions v := by
  simp only [versions, all_cons_eq_nil_iff, all_nil_eq_nil, and_true,
    isObject_eq_nil_iff, notEmptyObject_eq_nil_iff, eachKey_eq_nil_iff, eachField_eq_nil_iff,
    matching_eq_nil_iff, filledText_eq_nil_iff, isIdentifier_iff]
  constructor
  · rintro ⟨⟨fields, rfl⟩, hne, hkeys, hvalues⟩
    exact ⟨fields, rfl, fun h => hne (congrArg Json.obj h),
      fun e he => ⟨hkeys e he e.1 rfl, hvalues e he⟩⟩
  · rintro ⟨fields, rfl, hne, h⟩
    refine ⟨⟨fields, rfl⟩, fun heq => hne (Json.obj.inj heq), ?_, fun e he => (h e he).2⟩
    rintro e he t ⟨rfl⟩
    exact (h e he).1

theorem isArray_filled_iff {P : Json → Prop} : (∃ vs, v = .arr vs) ∧ v ≠ .arr [] ∧
    (∀ w ∈ v.items, P w) ↔ ∃ vs, v = .arr vs ∧ vs ≠ [] ∧ ∀ w ∈ vs, P w := by
  constructor
  · rintro ⟨⟨vs, rfl⟩, hne, hall⟩
    exact ⟨vs, rfl, fun h => hne (congrArg Json.arr h), hall⟩
  · rintro ⟨vs, rfl, hne, hall⟩
    exact ⟨⟨vs, rfl⟩, fun h => hne (Json.arr.inj h), hall⟩

theorem isObject_fields_iff {P : Json → Prop} : (∃ sets, v = .obj sets) ∧
    (∀ e ∈ v.fields, P e.2) ↔ ∃ sets, v = .obj sets ∧ ∀ e ∈ sets, P e.2 := by
  constructor
  · rintro ⟨⟨sets, rfl⟩, hall⟩
    exact ⟨sets, rfl, hall⟩
  · rintro ⟨sets, rfl, hall⟩
    exact ⟨⟨sets, rfl⟩, hall⟩

theorem validate_eq_ok_iff : validate v = .ok () ↔ IsPayload v := by
  rw [validate_eq_ok, violations, object_eq_nil_iff]
  simp only [all_cons_eq_nil_iff, all_nil_eq_nil, and_true, atKey_eq_nil_iff, isObject_eq_nil_iff,
    isConstant_eq_nil_iff, isArray_eq_nil_iff, notEmptyArray_eq_nil_iff, eachItem_eq_nil_iff,
    eachField_eq_nil_iff, fragment_eq_nil_iff, versions_eq_nil_iff, isArray_filled_iff,
    isObject_fields_iff, List.forall_mem_cons]
  constructor
  · rintro ⟨hobject, ⟨hcontract', hfragments', -⟩, hcontract, hfragments, hsets⟩
    obtain ⟨c, hc, rfl⟩ := must_iff.2 ⟨hcontract', hcontract⟩
    exact ⟨hobject, hc, must_iff.2 ⟨hfragments', hfragments⟩, hsets⟩
  · rintro ⟨hobject, hcontract, hfragments, hsets⟩
    obtain ⟨hfragments', hfragments⟩ := must_iff.1 hfragments
    obtain ⟨hcontract', hcontract⟩ :=
      (must_iff (P := (· = .str contract))).1 ⟨_, hcontract, rfl⟩
    exact ⟨hobject, ⟨hcontract', hfragments', nofun⟩, hcontract, hfragments, hsets⟩

end Payload

end Graft
