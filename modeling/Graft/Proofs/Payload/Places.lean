import Graft.Proofs.Payload.Keywords

/-!
# Where the published format objects

The checks find violations at the places to which the schema of fragment files objects, and nowhere
else. This is seen by following the schema through the document: the keywords of each schema and the
checks of the part that it is for come to the same conditions at the same places, one by one.

> `objects_schema_iff`: there is a violation at a place exactly if the schema objects there.
> `accepts_schema_iff`: the schema accepts the values of the grammar, which the checks accept, too.
-/

namespace Graft

namespace Payload

namespace Keyword

open Check

variable {v x : Json} {p : List Text} {key : Text}

/-! ## What the checks find -/

/-- A check finds a violation at a place. -/
def Finds (check : Check) (v : Json) (p : List Text) : Prop :=
  ∃ x ∈ check v, x.path = p

section Finds

variable {check : Check} {checks : List Check} {keys : List Text}

/-- What is found in a value as a whole. -/
theorem finds_iff_of_whole (h : ∀ x ∈ check v, x.path = []) :
    Finds check v p ↔ p = [] ∧ ¬ check v = [] := by
  constructor
  · rintro ⟨x, hx, rfl⟩
    exact ⟨h x hx, List.ne_nil_of_mem hx⟩
  · rintro ⟨rfl, hne⟩
    obtain ⟨x, hx⟩ := List.exists_mem_of_ne_nil _ hne
    exact ⟨x, hx, h x hx⟩

theorem finds_isText : Finds isText v p ↔ p = [] ∧ ¬ ∃ t, v = .str t := by
  rw [finds_iff_of_whole (by cases v <;> simp [isText, here]), isText_eq_nil_iff]

theorem finds_isTextOrNull :
    Finds isTextOrNull v p ↔ p = [] ∧ ¬ (v = .null ∨ ∃ t, v = .str t) := by
  rw [finds_iff_of_whole (by cases v <;> simp [isTextOrNull, here]), isTextOrNull_eq_nil_iff]

theorem finds_isArray : Finds isArray v p ↔ p = [] ∧ ¬ ∃ vs, v = .arr vs := by
  rw [finds_iff_of_whole (by cases v <;> simp [isArray, here]), isArray_eq_nil_iff]

theorem finds_isObject : Finds isObject v p ↔ p = [] ∧ ¬ ∃ fields, v = .obj fields := by
  rw [finds_iff_of_whole (by cases v <;> simp [isObject, here]), isObject_eq_nil_iff]

theorem finds_notEmptyText : Finds notEmptyText v p ↔ p = [] ∧ ¬ v ≠ .str [] := by
  rw [finds_iff_of_whole, notEmptyText_eq_nil_iff]
  unfold notEmptyText
  split <;> simp [here]

theorem finds_notEmptyArray : Finds notEmptyArray v p ↔ p = [] ∧ ¬ v ≠ .arr [] := by
  rw [finds_iff_of_whole, notEmptyArray_eq_nil_iff]
  unfold notEmptyArray
  split <;> simp [here]

theorem finds_notEmptyObject : Finds notEmptyObject v p ↔ p = [] ∧ ¬ v ≠ .obj [] := by
  rw [finds_iff_of_whole, notEmptyObject_eq_nil_iff]
  unfold notEmptyObject
  split <;> simp [here]

theorem finds_matching {pattern : Text} {matched : Text → Bool} :
    Finds (matching pattern matched) v p ↔ p = [] ∧ ¬ ∀ t, v = .str t → matched t = true := by
  rw [finds_iff_of_whole, matching_eq_nil_iff]
  unfold matching
  repeat' split
  all_goals simp [here]

theorem finds_isConstant {t : Text} :
    Finds (isConstant t) v p ↔ p = [] ∧ ¬ v = .str t := by
  rw [finds_iff_of_whole, isConstant_eq_nil_iff]
  unfold isConstant
  repeat' split
  all_goals simp [here]

theorem finds_isOneOf : Finds (isOneOf keys) v p ↔ p = [] ∧ ¬ ∃ t ∈ keys, v = .str t := by
  rw [finds_iff_of_whole, isOneOf_eq_nil_iff]
  unfold isOneOf
  repeat' split
  all_goals simp [here]

theorem whole_of_mem_hasKeys {y : Violation} (h : y ∈ hasKeys keys v) : y.path = [] := by
  unfold hasKeys at h
  split at h
  · obtain ⟨k, -, hy⟩ := List.mem_flatMap.1 h
    rw [List.mem_singleton.1 hy]
  · cases h

theorem finds_hasKeys : Finds (hasKeys keys) v p ↔
    p = [] ∧ ¬ ∀ fields, v = .obj fields → ∀ k ∈ keys, ∃ w, v.get? k = some w := by
  rw [finds_iff_of_whole fun _ => whole_of_mem_hasKeys, hasKeys_eq_nil_iff]

theorem finds_onlyKeys :
    Finds (onlyKeys keys) v p ↔ p = [] ∧ ¬ ∀ e ∈ v.fields, e.1 ∈ keys := by
  rw [finds_iff_of_whole, onlyKeys_eq_nil_iff]
  unfold onlyKeys
  dsimp only
  repeat' split
  all_goals simp [here]

theorem finds_namesBlock : Finds namesBlock v p ↔
    p = [] ∧ ¬ (May "kind".toText (· = .str "block".toText) v →
      hasKeys ["block".toText] v = []) := by
  rw [finds_iff_of_whole, namesBlock_eq_nil_iff]
  unfold namesBlock
  repeat' split
  all_goals first | exact fun _ => whole_of_mem_hasKeys | simp

/-- What a check finds in a part is found one step further in. -/
theorem finds_under {part : Text} :
    (∃ y ∈ (check v).map (·.under part), y.path = p) ↔ Below part (Finds check v) p := by
  constructor
  · rintro ⟨_, hy, rfl⟩
    obtain ⟨y, hmem, rfl⟩ := List.mem_map.1 hy
    exact ⟨y.path, rfl, y, hmem, rfl⟩
  · rintro ⟨_, rfl, y, hmem, rfl⟩
    exact ⟨_, List.mem_map_of_mem hmem, rfl⟩

theorem finds_atKey : Finds (atKey key check) v p ↔
    ∃ w, v.get? key = some w ∧ Below key (Finds check w) p := by
  rw [Finds, atKey]
  cases v.get? key with
  | none => simp
  | some w =>
    simp only [Option.some.injEq, exists_eq_left']
    exact finds_under

theorem finds_eachItem : Finds (eachItem check) v p ↔
    ∃ i w, v.items[i]? = some w ∧ Below (Text.ofNat i) (Finds check w) p := by
  have hfrom : ∀ n (vs : List Json), (∃ y ∈ Check.inItems check n vs, y.path = p) ↔
      ∃ i w, vs[i]? = some w ∧ Below (Text.ofNat (n + i)) (Finds check w) p := by
    intro n vs
    induction vs generalizing n with
    | nil => simp [Check.inItems]
    | cons w ws ih =>
      simp only [Check.inItems, List.mem_append, or_and_right, exists_or, finds_under, ih]
      constructor
      · rintro (hfirst | ⟨i, w', hw', hrest⟩)
        · exact ⟨0, w, rfl, hfirst⟩
        · exact ⟨i + 1, w', hw', by rwa [Nat.add_comm i, ← Nat.add_assoc]⟩
      · rintro ⟨i, w', hw', hbelow⟩
        cases i with
        | zero => exact .inl (Option.some.inj hw' ▸ hbelow)
        | succ i => exact .inr ⟨i, w', hw', by rwa [Nat.add_comm i, ← Nat.add_assoc] at hbelow⟩
  have hall := hfrom 0 v.items
  simp only [Nat.zero_add] at hall
  exact hall

theorem finds_eachField : Finds (eachField check) v p ↔
    ∃ e ∈ v.fields, Below e.1 (Finds check e.2) p := by
  simp only [← finds_under, Finds, eachField, List.mem_flatMap]
  constructor
  · rintro ⟨y, ⟨e, he, hy⟩, hp⟩
    exact ⟨e, he, y, hy, hp⟩
  · rintro ⟨e, he, y, hy, hp⟩
    exact ⟨y, ⟨e, he, hy⟩, hp⟩

theorem finds_eachKey : Finds (eachKey check) v p ↔
    ∃ e ∈ v.fields, Finds check (.str e.1) p := by
  simp only [Finds, eachKey, List.mem_flatMap]
  constructor
  · rintro ⟨y, ⟨e, he, hy⟩, hp⟩
    exact ⟨e, he, y, hy, hp⟩
  · rintro ⟨e, he, y, hy, hp⟩
    exact ⟨y, ⟨e, he, hy⟩, hp⟩

theorem finds_all_nil : Finds (all []) v p ↔ False := by
  simp [Finds, all]

theorem finds_all_cons :
    Finds (all (check :: checks)) v p ↔ Finds check v p ∨ Finds (all checks) v p := by
  simp [Finds, all, or_and_right, exists_or]

end Finds

/-! ## The schemas of the document -/

section Schemas

variable {objects : Objection} {document schema : Json} {keywords : List (String × Json)}
  {depth : Nat}

theorem raised_iff {objection : Objection}
    (h : (objections objects document schema).get? key = some objection) :
    Raised objects document schema (key, x) v p ↔ objection x v p := by
  simp [Raised, h]

theorem raised_of_none (h : (objections objects document schema).get? key = none) :
    Raised objects document schema (key, x) v p ↔ False := by
  simp [Raised, h]

theorem raised_type :
    Raised objects document schema ("type".toText, x) v p ↔ whole type x v p :=
  raised_iff rfl

theorem raised_required :
    Raised objects document schema ("required".toText, x) v p ↔ whole required x v p :=
  raised_iff rfl

theorem raised_properties :
    Raised objects document schema ("properties".toText, x) v p ↔ inProperties objects x v p :=
  raised_iff rfl

theorem raised_additionalProperties :
    Raised objects document schema ("additionalProperties".toText, x) v p ↔
      inAdditionalProperties objects schema x v p := raised_iff rfl

theorem raised_propertyNames :
    Raised objects document schema ("propertyNames".toText, x) v p ↔
      inPropertyNames objects x v p := raised_iff rfl

theorem raised_items :
    Raised objects document schema ("items".toText, x) v p ↔ inItems objects x v p :=
  raised_iff rfl

theorem raised_minLength : Raised objects document schema ("minLength".toText, x) v p ↔
    whole (atLeast textSize) x v p := raised_iff rfl

theorem raised_minItems : Raised objects document schema ("minItems".toText, x) v p ↔
    whole (atLeast arraySize) x v p := raised_iff rfl

theorem raised_minProperties : Raised objects document schema ("minProperties".toText, x) v p ↔
    whole (atLeast objectSize) x v p := raised_iff rfl

theorem raised_pattern :
    Raised objects document schema ("pattern".toText, x) v p ↔ whole pattern x v p :=
  raised_iff rfl

theorem raised_const :
    Raised objects document schema ("const".toText, x) v p ↔ whole const x v p :=
  raised_iff rfl

theorem raised_enum :
    Raised objects document schema ("enum".toText, x) v p ↔ whole enum x v p :=
  raised_iff rfl

theorem raised_if :
    Raised objects document schema ("if".toText, x) v p ↔ inThen objects schema x v p :=
  raised_iff rfl

theorem raised_ref :
    Raised objects document schema ("$ref".toText, x) v p ↔ inReference objects document x v p :=
  raised_iff rfl

theorem raised_then : Raised objects document schema ("then".toText, x) v p ↔ False :=
  raised_of_none rfl

theorem raised_title : Raised objects document schema ("title".toText, x) v p ↔ False :=
  raised_of_none rfl

theorem raised_dialect : Raised objects document schema ("$schema".toText, x) v p ↔ False :=
  raised_of_none rfl

theorem raised_definitions : Raised objects document schema ("$defs".toText, x) v p ↔ False :=
  raised_of_none rfl

/-- A schema objects to what its keywords object to. -/
theorem objects_iff (h : schema = Published.object keywords) :
    Objects document (depth + 1) schema v p ↔ ∃ e ∈ keywords,
      Raised (Objects document depth) document schema (e.1.toText, e.2) v p := by
  subst h
  constructor
  · rintro ⟨_, hfield, hraised⟩
    obtain ⟨e, he, rfl⟩ := List.mem_map.1 hfield
    exact ⟨e, he, hraised⟩
  · rintro ⟨e, he, hraised⟩
    exact ⟨(e.1.toText, e.2), List.mem_map_of_mem he, hraised⟩

theorem objects_filledText :
    Objects document (depth + 1) Published.filledText v p ↔ Finds filledText v p := by
  rw [objects_iff (show Published.filledText = _ from rfl)]
  simp only [List.exists_mem_cons_iff, List.not_mem_nil, false_and, exists_false, or_false,
    raised_type, raised_minLength, whole, type_string, atLeast_text, filledText, finds_all_cons,
    finds_all_nil, finds_isText, finds_notEmptyText]

theorem objects_filledTexts :
    Objects document (depth + 2) Published.filledTexts v p ↔ Finds filledTexts v p := by
  rw [objects_iff (show Published.filledTexts = _ from rfl)]
  simp only [List.exists_mem_cons_iff, List.not_mem_nil, false_and, exists_false, or_false,
    raised_type, raised_items, whole, type_array, inItems, Below, objects_filledText, filledTexts,
    finds_all_cons, finds_all_nil, finds_isArray, finds_eachItem]

theorem inProperties_object {known : List (String × Json)} :
    inProperties objects (Published.object known) v p ↔ ∃ e ∈ known, ∃ w,
      v.get? e.1.toText = some w ∧ Below e.1.toText (objects e.2 w) p := by
  constructor
  · rintro ⟨_, hfield, h⟩
    obtain ⟨e, he, rfl⟩ := List.mem_map.1 hfield
    exact ⟨e, he, h⟩
  · rintro ⟨e, he, h⟩
    exact ⟨(e.1.toText, e.2), List.mem_map_of_mem he, h⟩

theorem inAdditionalProperties_false : inAdditionalProperties objects schema (.bool false) v p ↔
    p = [] ∧ ¬ ∀ e ∈ v.fields, e.1 ∈ knownKeys schema := by
  simp only [inAdditionalProperties, true_and, ne_eq, not_true, false_and, or_false, not_forall]
  exact ⟨fun ⟨e, he, hother, hp⟩ => ⟨hp, e, he, hother⟩,
    fun ⟨hp, e, he, hother⟩ => ⟨e, he, hother, hp⟩⟩

theorem inAdditionalProperties_all (hknown : knownKeys schema = []) (hx : x ≠ .bool false) :
    inAdditionalProperties objects schema x v p ↔
      ∃ e ∈ v.fields, Below e.1 (objects x e.2) p := by
  simp [inAdditionalProperties, hknown, hx]

/-- A schema that has a name in the document is the one referred to. -/
theorem refers_shared {s y : Json} {name : String}
    (h : (document.get? "$defs".toText).bind (·.get? name.toText) = some s) :
    Refers document (Published.text ("#/$defs/" ++ name)) y ↔ y = s := by
  have hrefers : Refers document (Published.text ("#/$defs/" ++ name)) s := by
    refine ⟨name.toText, ?_, h⟩
    rw [Published.text, String.toText_append]
  exact ⟨fun hy => hy.eq hrefers, fun hy => hy ▸ hrefers⟩

/-- A reference objects where the schema does that it refers to. -/
theorem objects_shared {name : String}
    (h : (document.get? "$defs".toText).bind (·.get? name.toText) = some schema) :
    Objects document (depth + 2) (Published.shared name) v p ↔
      Objects document (depth + 1) schema v p := by
  rw [objects_iff (show Published.shared name = _ from rfl)]
  simp [raised_ref, inReference, refers_shared h]

theorem objects_versions :
    Objects document (depth + 2) Published.versions v p ↔ Finds versions v p := by
  have hknown : knownKeys Published.versions = [] := rfl
  have hfilled : Published.filledText ≠ .bool false := fun h => by cases h
  rw [objects_iff (show Published.versions = _ from rfl)]
  simp only [List.exists_mem_cons_iff, List.not_mem_nil, false_and, exists_false, or_false,
    raised_type, raised_minProperties, raised_propertyNames, raised_additionalProperties,
    raised_pattern, whole, type_object, atLeast_object, inPropertyNames,
    inAdditionalProperties_all hknown hfilled, Below, objects_iff rfl, pattern_identifier,
    objects_filledText, versions, finds_all_cons, finds_all_nil, finds_isObject,
    finds_notEmptyObject, finds_eachKey, finds_eachField, finds_matching, isIdentifier_iff]

/-- A value of which one schema has nothing to say is objected to where the other one objects. -/
theorem inThen_iff {y : Json} (h : schema.get? "then".toText = some y) :
    inThen objects schema x v p ↔ (∀ q, ¬ objects x v q) ∧ objects y v p := by
  simp [inThen, h]

/-- Nothing is to be said of what has one text under a key, if it has anything there. -/
theorem not_objects_const {key t : String} : (∀ q, ¬ Objects document (depth + 2)
    (Published.object [("properties", Published.object [
      (key, Published.object [("const", Published.text t)])])]) v q) ↔
    May key.toText (· = .str t.toText) v := by
  simp only [objects_iff rfl, List.exists_mem_cons_iff, List.not_mem_nil, false_and, exists_false,
    or_false, raised_properties, raised_const, inProperties_object, whole, const_text, Below, May]
  constructor
  · intro h w hw
    exact not_not.1 fun hne => h _ ⟨w, hw, [], rfl, rfl, hne⟩
  · rintro h _ ⟨w, hw, _, rfl, rfl, hne⟩
    exact hne (h w hw)

theorem objects_anchor :
    Objects document (depth + 3) Published.anchor v p ↔ Finds anchor v p := by
  have hknown : knownKeys Published.anchor = ["kind".toText, "block".toText] := rfl
  have hthen : Published.anchor.get? "then".toText =
      some (Published.object [("required", Published.texts ["block"])]) := rfl
  -- an anchor is asked to name its block where it is accepted by what stands behind "if"
  have hnamed : Finds namesBlock v p ↔
      May "kind".toText (· = .str "block".toText) v ∧
        p = [] ∧ ¬ hasKeys ["block".toText] v = [] := by
    rw [finds_namesBlock, Classical.not_imp, and_left_comm]
  have hif : inThen (Objects document (depth + 2)) Published.anchor (Published.object
      [("properties", Published.object [
        ("kind", Published.object [("const", Published.text "block")])])]) v p ↔
      May "kind".toText (· = .str "block".toText) v ∧
        Objects document (depth + 2) (Published.object [("required", Published.texts ["block"])])
          v p := by
    rw [inThen_iff hthen, not_objects_const]
  rw [objects_iff (show Published.anchor = _ from rfl)]
  simp only [List.exists_mem_cons_iff, List.forall_mem_cons, List.not_mem_nil, false_and,
    false_implies, implies_true, and_true, exists_false, or_false, raised_type, raised_required,
    raised_additionalProperties, raised_properties, raised_if, raised_then, raised_enum, whole,
    type_object, required_texts, inProperties_object, inAdditionalProperties_false, hknown,
    hif, Below, objects_filledText, objects_iff rfl, enum_texts,
    List.map_cons, List.map_nil, or_assoc, anchor, finds_all_cons, finds_all_nil, finds_isObject,
    finds_hasKeys, finds_onlyKeys, finds_atKey, finds_isOneOf, hnamed, hasKeys_eq_nil_iff]

theorem objects_fragment :
    Objects Published.schema (depth + 5) Published.fragment v p ↔ Finds fragment v p := by
  have hknown : knownKeys Published.fragment = ["marker".toText, "template".toText,
    "anchor".toText, "required".toText, "block".toText, "after".toText, "description".toText] := rfl
  have hanchor : (Published.schema.get? "$defs".toText).bind (·.get? "anchor".toText) =
      some Published.anchor := rfl
  rw [objects_iff (show Published.fragment = _ from rfl)]
  simp only [List.exists_mem_cons_iff, List.not_mem_nil, false_and, exists_false, or_false,
    raised_type, raised_required, raised_additionalProperties, raised_properties,
    raised_minLength, raised_pattern, whole, type_object, type_string, type_stringOrNull,
    atLeast_text, pattern_oneLine, required_texts, inProperties_object,
    inAdditionalProperties_false, hknown, Below, objects_iff rfl, objects_filledText,
    objects_filledTexts, objects_shared hanchor, objects_anchor, List.map_cons, List.map_nil,
    fragment, finds_all_cons, finds_all_nil, finds_isObject, finds_hasKeys,
    finds_onlyKeys, finds_atKey, finds_isText, finds_isTextOrNull, finds_notEmptyText,
    finds_matching, isOneLine_iff]

/-- **There is a violation at a place exactly if the schema objects there.** -/
theorem objects_schema_iff : Objects Published.schema (depth + 8) Published.schema v p ↔
    ∃ x ∈ violations v, x.path = p := by
  have hknown : knownKeys Published.schema =
    ["contract".toText, "fragments".toText, "version_sets".toText] := rfl
  have hnone : knownKeys (Published.object [("type", Published.text "object"),
    ("additionalProperties", Published.shared "versions")]) = [] := rfl
  have hshared : Published.shared "versions" ≠ .bool false := fun h => by cases h
  have hfragment : (Published.schema.get? "$defs".toText).bind (·.get? "fragment".toText) =
    some Published.fragment := rfl
  have hversions : (Published.schema.get? "$defs".toText).bind (·.get? "versions".toText) =
    some Published.versions := rfl
  show _ ↔ Finds violations v p
  rw [objects_iff (show Published.schema = _ from rfl)]
  simp only [List.exists_mem_cons_iff, List.not_mem_nil, false_and, exists_false, or_false,
    false_or, raised_dialect, raised_title, raised_definitions, raised_type, raised_required,
    raised_additionalProperties, raised_properties, raised_const, raised_items, raised_minItems,
    whole, type_object, type_array, atLeast_array, required_texts, inProperties_object,
    inAdditionalProperties_false, hknown, inAdditionalProperties_all hnone hshared, inItems, const,
    Below, objects_iff rfl, objects_shared hfragment, objects_shared hversions, objects_fragment,
    objects_versions, List.map_cons, List.map_nil, violations, finds_all_cons,
    finds_all_nil, finds_isObject, finds_hasKeys, finds_onlyKeys, finds_atKey, finds_isConstant,
    finds_isArray, finds_notEmptyArray, finds_eachItem, finds_eachField]

end Schemas

/-- The schema accepts the values of the grammar. -/
theorem accepts_schema_iff (depth : Nat) :
    Accepts Published.schema (depth + 8) Published.schema v ↔ IsPayload v := by
  rw [← validate_eq_ok_iff, validate_eq_ok, agrees_accepts]
  simp only [objects_schema_iff]
  constructor
  · intro h
    exact List.eq_nil_iff_forall_not_mem.2 fun x hx => h x.path ⟨x, hx, rfl⟩
  · rintro h p ⟨x, hx, -⟩
    rw [h] at hx
    cases hx

end Keyword

end Payload

end Graft
