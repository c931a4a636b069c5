import Graft.Payload.Published
import Graft.Proofs.Payload.Grammar

/-!
# The keywords of the published format

The schema of fragment files is a JSON value itself: each key of it is a keyword that asks something
of the value that is looked at, and asks it of values of one type only. Keywords may hand a part of
the value on to another schema, which may stand under a name elsewhere in the document. This file
says what the keywords in use ask (`Keyword.Accepts`), and where a value does not give it
(`Keyword.Objects`): most keywords object to the value that is looked at, and those that hand parts
of it on where the other schema objects, one step further in.

> `agrees_accepts`: a schema accepts the values to which it objects nowhere.

A document may refer to itself without end. So there is a bound to the number of schemas that are
looked into one within the other, and any bound that is enough for the document will do.
-/

namespace Graft

namespace Payload

namespace Keyword

open Check

variable {v x : Json} {key : Text} {p : List Text}

/-! ## Keywords -/

/-- What a schema says to a value. -/
abbrev Judgement := Json → Json → Prop

/-- A value is of the type of a name. No schema of the document asks for whole numbers. -/
def IsOfType (v : Json) (name : Text) : Prop :=
  match v with
  | .null => name = "null".toText
  | .bool _ => name = "boolean".toText
  | .int _ | .float _ => name = "number".toText
  | .str _ => name = "string".toText
  | .arr _ => name = "array".toText
  | .obj _ => name = "object".toText

/-- The value is of the type, or of one of the types. -/
def type : Judgement := fun x v =>
  ∃ name, (x = .str name ∨ .str name ∈ x.items) ∧ IsOfType v name

/-- An object has the keys. -/
def required : Judgement := fun x v =>
  ∀ fields, v = .obj fields → ∀ k, .str k ∈ x.items → ∃ w, v.get? k = some w

/-- What an object has under the keys is accepted by their schemas. -/
def properties (accepts : Judgement) : Judgement := fun x v =>
  ∀ e ∈ x.fields, May e.1 (accepts e.2) v

/-- The keys that have a schema of their own. -/
def knownKeys (schema : Json) : List Text :=
  Table.keys (((schema.get? "properties".toText).map Json.fields).getD [])

/-- What an object has under other keys is accepted. -/
def additionalProperties (accepts : Judgement) (schema : Json) : Judgement := fun x v =>
  ∀ e ∈ v.fields, e.1 ∉ knownKeys schema → accepts x e.2

/-- The keys of an object, taken as texts, are accepted. -/
def propertyNames (accepts : Judgement) : Judgement := fun x v =>
  ∀ e ∈ v.fields, accepts x (.str e.1)

/-- The items of an array are accepted. -/
def items (accepts : Judgement) : Judgement := fun x v =>
  ∀ w ∈ v.items, accepts x w

/-- A value with a size has that size at least. -/
def atLeast (size : Json → Option Nat) : Judgement := fun x v =>
  ∀ n k, x = .int n → size v = some k → n ≤ k

/-- The number of characters of a text. -/
def textSize : Json → Option Nat
  | .str t => some t.length
  | _ => none

/-- The number of items of an array. -/
def arraySize : Json → Option Nat
  | .arr vs => some vs.length
  | _ => none

/-- The number of keys of an object. -/
def objectSize : Json → Option Nat
  | .obj fields => some fields.length
  | _ => none

/-- A pattern is found in a text. In the patterns of the format the sign for the end stands for the
place before a line feed at the end, too. -/
def Found (pattern t : Text) : Prop :=
  pattern = oneLinePattern ∧ Ended IsLine t ∨ pattern = identifierPattern ∧ Ended IsName t

/-- The pattern is found in a text. -/
def pattern : Judgement := fun x v =>
  ∀ p t, x = .str p → v = .str t → Found p t

/-- The value is what the keyword has. -/
def const : Judgement := fun x v =>
  v = x

/-- The value is one of those that the keyword has. -/
def enum : Judgement := fun x v =>
  v ∈ x.items

/-- A value that one schema accepts is accepted by another one. -/
def ifThen (accepts : Judgement) (schema : Json) : Judgement := fun x v =>
  accepts x v → ∀ y, schema.get? "then".toText = some y → accepts y v

/-- A schema of the document that has a name accepts the value. -/
def ref (accepts : Judgement) (document : Json) : Judgement := fun x v =>
  ∃ name y, x = .str ("#/$defs/".toText ++ name) ∧
    (document.get? "$defs".toText).bind (·.get? name) = some y ∧ accepts y v

/-- What each keyword asks. -/
def table (accepts : Judgement) (document schema : Json) : Table Judgement := [
  ("type".toText, type),
  ("required".toText, required),
  ("properties".toText, properties accepts),
  ("additionalProperties".toText, additionalProperties accepts schema),
  ("propertyNames".toText, propertyNames accepts),
  ("items".toText, items accepts),
  ("minLength".toText, atLeast textSize),
  ("minItems".toText, atLeast arraySize),
  ("minProperties".toText, atLeast objectSize),
  ("pattern".toText, pattern),
  ("const".toText, const),
  ("enum".toText, enum),
  ("if".toText, ifThen accepts schema),
  ("$ref".toText, ref accepts document)]

/-- A field of a schema is satisfied; one that is no keyword asks nothing. -/
def Satisfied (accepts : Judgement) (document schema : Json) (e : Text × Json) (v : Json) : Prop :=
  ∀ judgement, (table accepts document schema).get? e.1 = some judgement → judgement e.2 v

/-- A schema of a document accepts a value, if no more than some number of schemas are looked into
one within the other. -/
def Accepts (document : Json) : Nat → Judgement
  | 0, _, _ => False
  | _ + 1, .bool b, _ => b = true
  | depth + 1, schema, v =>
    ∀ e ∈ schema.fields, Satisfied (Accepts document depth) document schema e v

/-! ## Objections -/

/-- What is objected to in a value, by the path that leads there. -/
abbrev Objection := Json → Json → List Text → Prop

/-- A path starts with a part and goes on to a place. -/
def Below (part : Text) (there : List Text → Prop) (p : List Text) : Prop :=
  ∃ q, p = part :: q ∧ there q

/-- A value that is not as it should be is objected to as a whole. -/
def whole (judgement : Judgement) : Objection := fun x v p =>
  p = [] ∧ ¬ judgement x v

/-- What an object has under the keys is objected to by their schemas. -/
def inProperties (objects : Objection) : Objection := fun x v p =>
  ∃ e ∈ x.fields, ∃ w, v.get? e.1 = some w ∧ Below e.1 (objects e.2 w) p

/-- What an object has under other keys is objected to, or the object if it may not have any. -/
def inAdditionalProperties (objects : Objection) (schema : Json) : Objection := fun x v p =>
  ∃ e ∈ v.fields, e.1 ∉ knownKeys schema ∧
    (x = .bool false ∧ p = [] ∨ x ≠ .bool false ∧ Below e.1 (objects x e.2) p)

/-- An object is objected to where its keys are, taken as texts. -/
def inPropertyNames (objects : Objection) : Objection := fun x v p =>
  ∃ e ∈ v.fields, objects x (.str e.1) p

/-- The items of an array are objected to under their numbers. -/
def inItems (objects : Objection) : Objection := fun x v p =>
  ∃ i w, v.items[i]? = some w ∧ Below (Text.ofNat i) (objects x w) p

/-- A value to which one schema does not object is objected to by another one. -/
def inThen (objects : Objection) (schema : Json) : Objection := fun x v p =>
  (∀ q, ¬ objects x v q) ∧ ∃ y, schema.get? "then".toText = some y ∧ objects y v p

/-- A reference to a schema of the document. -/
def Refers (document x y : Json) : Prop :=
  ∃ name, x = .str ("#/$defs/".toText ++ name) ∧
    (document.get? "$defs".toText).bind (·.get? name) = some y

/-- A value is objected to by the schema that is referred to, or for want of one. -/
def inReference (objects : Objection) (document : Json) : Objection := fun x v p =>
  (∃ y, Refers document x y ∧ objects y v p) ∨ p = [] ∧ ∀ y, ¬ Refers document x y

/-- What each keyword objects to. -/
def objections (objects : Objection) (document schema : Json) : Table Objection := [
  ("type".toText, whole type),
  ("required".toText, whole required),
  ("properties".toText, inProperties objects),
  ("additionalProperties".toText, inAdditionalProperties objects schema),
  ("propertyNames".toText, inPropertyNames objects),
  ("items".toText, inItems objects),
  ("minLength".toText, whole (atLeast textSize)),
  ("minItems".toText, whole (atLeast arraySize)),
  ("minProperties".toText, whole (atLeast objectSize)),
  ("pattern".toText, whole pattern),
  ("const".toText, whole const),
  ("enum".toText, whole enum),
  ("if".toText, inThen objects schema),
  ("$ref".toText, inReference objects document)]

/-- A field of a schema objects to something; one that is no keyword does not. -/
def Raised (objects : Objection) (document schema : Json) (e : Text × Json) (v : Json)
    (p : List Text) : Prop :=
  ∃ objection, (objections objects document schema).get? e.1 = some objection ∧ objection e.2 v p

/-- What a schema of a document objects to, if no more than some number of schemas are looked into
one within the other. -/
def Objects (document : Json) : Nat → Objection
  | 0, _, _, p => p = []
  | _ + 1, .bool b, _, p => b = false ∧ p = []
  | depth + 1, schema, v, p =>
    ∃ e ∈ schema.fields, Raised (Objects document depth) document schema e v p

/-! ## What is accepted is not objected to -/

/-- What satisfies a judgement is what is objected to nowhere. -/
def Agrees (judgement : Judgement) (objection : Objection) : Prop :=
  ∀ x v, judgement x v ↔ ∀ p, ¬ objection x v p

section Agrees

variable {accepts : Judgement} {objects : Objection} {document schema : Json}

theorem agrees_whole (judgement : Judgement) : Agrees judgement (whole judgement) := by
  intro x v
  simp [whole]

theorem agrees_properties (h : Agrees accepts objects) :
    Agrees (properties accepts) (inProperties objects) := by
  intro x v
  constructor
  · rintro hall p ⟨e, he, w, hw, q, -, hq⟩
    exact (h _ _).1 (hall e he w hw) q hq
  · intro hnone e he w hw
    exact (h _ _).2 fun q hq => hnone _ ⟨e, he, w, hw, q, rfl, hq⟩

theorem agrees_additionalProperties (h : Agrees accepts objects)
    (hfalse : ∀ w, ¬ accepts (.bool false) w) :
    Agrees (additionalProperties accepts schema) (inAdditionalProperties objects schema) := by
  intro x v
  constructor
  · rintro hall p ⟨e, he, hother, ⟨rfl, -⟩ | ⟨-, q, -, hq⟩⟩
    · exact hfalse _ (hall e he hother)
    · exact (h _ _).1 (hall e he hother) q hq
  · intro hnone e he hother
    by_cases hx : x = .bool false
    · exact absurd ⟨e, he, hother, .inl ⟨hx, rfl⟩⟩ (hnone [])
    · exact (h _ _).2 fun q hq => hnone _ ⟨e, he, hother, .inr ⟨hx, q, rfl, hq⟩⟩

theorem agrees_propertyNames (h : Agrees accepts objects) :
    Agrees (propertyNames accepts) (inPropertyNames objects) := by
  intro x v
  constructor
  · rintro hall p ⟨e, he, hp⟩
    exact (h _ _).1 (hall e he) p hp
  · intro hnone e he
    exact (h _ _).2 fun p hp => hnone p ⟨e, he, hp⟩

theorem agrees_items (h : Agrees accepts objects) : Agrees (items accepts) (inItems objects) := by
  intro x v
  constructor
  · rintro hall p ⟨i, w, hw, q, -, hq⟩
    exact (h _ _).1 (hall w (List.mem_of_getElem? hw)) q hq
  · intro hnone w hmem
    obtain ⟨i, hw⟩ := List.mem_iff_getElem?.1 hmem
    exact (h _ _).2 fun q hq => hnone _ ⟨i, w, hw, q, rfl, hq⟩

theorem agrees_ifThen (h : Agrees accepts objects) :
    Agrees (ifThen accepts schema) (inThen objects schema) := by
  intro x v
  constructor
  · rintro hall p ⟨hfirst, y, hy, hp⟩
    exact (h _ _).1 (hall ((h _ _).2 hfirst) y hy) p hp
  · intro hnone hfirst y hy
    exact (h _ _).2 fun p hp => hnone p ⟨(h _ _).1 hfirst, y, hy, hp⟩

/-- There is at most one schema that is referred to. -/
theorem Refers.eq {y z : Json} (hy : Refers document x y) (hz : Refers document x z) : y = z := by
  obtain ⟨name, rfl, hname⟩ := hy
  obtain ⟨name', heq, hname'⟩ := hz
  rw [Json.str.injEq, List.append_cancel_left_eq] at heq
  rw [← heq, hname] at hname'
  exact Option.some.inj hname'

theorem agrees_ref (h : Agrees accepts objects) :
    Agrees (ref accepts document) (inReference objects document) := by
  intro x v
  constructor
  · rintro ⟨name, y, hx, hy, haccepts⟩ p (⟨z, hz, hp⟩ | ⟨-, hnone⟩)
    · obtain rfl : y = z := Refers.eq ⟨name, hx, hy⟩ hz
      exact (h _ _).1 haccepts p hp
    · exact hnone y ⟨name, hx, hy⟩
  · intro hnone
    by_cases hrefers : ∃ y, Refers document x y
    · obtain ⟨y, name, hx, hy⟩ := hrefers
      exact ⟨name, y, hx, hy, (h _ _).2 fun p hp => hnone p (.inl ⟨y, ⟨name, hx, hy⟩, hp⟩)⟩
    · exact absurd (.inr ⟨rfl, not_exists.1 hrefers⟩) (hnone [])

/-- Keyword by keyword, what is asked is what is objected to nowhere. -/
theorem agrees_keywords (h : Agrees accepts objects) (hfalse : ∀ w, ¬ accepts (.bool false) w) :
    List.Forall₂ (fun j o => j.1 = o.1 ∧ Agrees j.2 o.2) (table accepts document schema)
      (objections objects document schema) := by
  unfold table objections
  exact .cons ⟨rfl, agrees_whole _⟩ <| .cons ⟨rfl, agrees_whole _⟩ <|
    .cons ⟨rfl, agrees_properties h⟩ <| .cons ⟨rfl, agrees_additionalProperties h hfalse⟩ <|
    .cons ⟨rfl, agrees_propertyNames h⟩ <| .cons ⟨rfl, agrees_items h⟩ <|
    .cons ⟨rfl, agrees_whole _⟩ <| .cons ⟨rfl, agrees_whole _⟩ <| .cons ⟨rfl, agrees_whole _⟩ <|
    .cons ⟨rfl, agrees_whole _⟩ <| .cons ⟨rfl, agrees_whole _⟩ <| .cons ⟨rfl, agrees_whole _⟩ <|
    .cons ⟨rfl, agrees_ifThen h⟩ <| .cons ⟨rfl, agrees_ref h⟩ .nil

/-- A field is satisfied if it objects to nothing. -/
theorem satisfied_iff_not_raised (h : Agrees accepts objects)
    (hfalse : ∀ w, ¬ accepts (.bool false) w) (e : Text × Json) :
    Satisfied accepts document schema e v ↔ ∀ p, ¬ Raised objects document schema e v p := by
  have hkeywords : List.Forall₂ (fun j o => j.1 = o.1 ∧ Agrees j.2 o.2)
    (table accepts document schema) (objections objects document schema) :=
    agrees_keywords h hfalse
  unfold Satisfied Raised
  generalize table accepts document schema = judgements at hkeywords
  generalize objections objects document schema = objections at hkeywords
  induction hkeywords with
  | nil => simp [Table.get?]
  | @cons j o js os hhead _ ih =>
    obtain ⟨hname, hagrees⟩ := hhead
    rw [Table.get?, Table.get?, ← hname]
    by_cases hkey : j.1 = e.1
    · rw [if_pos hkey, if_pos hkey]
      simp [hagrees e.2 v]
    · rw [if_neg hkey, if_neg hkey]
      exact ih

theorem not_accepts_false (document : Json) (depth : Nat) (w : Json) :
    ¬ Accepts document depth (.bool false) w := by
  intro h
  cases depth with
  | zero => exact h
  | succ depth => cases h

/-- **A schema accepts what it objects to nowhere.** -/
theorem agrees_accepts (document : Json) (depth : Nat) :
    Agrees (Accepts document depth) (Objects document depth) := by
  induction depth with
  | zero =>
    intro schema v
    simp [Accepts, Objects]
  | succ depth ih =>
    intro schema v
    have hfields : (∀ e ∈ schema.fields, Satisfied (Accepts document depth) document schema e v) ↔
        ∀ p, ¬ ∃ e ∈ schema.fields, Raised (Objects document depth) document schema e v p := by
      simp only [satisfied_iff_not_raised ih (not_accepts_false document depth)]
      exact ⟨fun hall p ⟨e, he, hp⟩ => hall e he p hp, fun hnone e he p hp => hnone p ⟨e, he, hp⟩⟩
    cases schema with
    | bool b => cases b <;> simp [Accepts, Objects]
    | _ => exact hfields

end Agrees

/-! ## Keywords with the values that they have in the document -/

theorem type_text {name : String} : type (Published.text name) v ↔ IsOfType v name.toText := by
  simp [type, Published.text, Json.items]

theorem type_string : type (Published.text "string") v ↔ ∃ t, v = .str t := by
  rw [type_text]
  cases v <;> simp [IsOfType]

theorem type_array : type (Published.text "array") v ↔ ∃ vs, v = .arr vs := by
  rw [type_text]
  cases v <;> simp [IsOfType]

theorem type_object : type (Published.text "object") v ↔ ∃ fields, v = .obj fields := by
  rw [type_text]
  cases v <;> simp [IsOfType]

theorem type_stringOrNull :
    type (Published.texts ["string", "null"]) v ↔ v = .null ∨ ∃ t, v = .str t := by
  cases v <;> simp [type, Published.texts, Published.text, Json.items, IsOfType]

theorem required_texts {keys : List String} : required (Published.texts keys) v ↔
    ∀ fields, v = .obj fields → ∀ k ∈ keys.map String.toText, ∃ w, v.get? k = some w := by
  simp [required, Published.texts, Published.text, Json.items]

/-- A least size of one rules out what is empty. -/
theorem atLeast_one {size : Json → Option Nat} :
    atLeast size (.int 1) v ↔ size v ≠ some 0 := by
  unfold atLeast
  cases size v with
  | none => simp
  | some k =>
    cases k with
    | zero => simp
    | succ k =>
      refine iff_of_true ?_ (by simp)
      rintro _ _ ⟨⟩ ⟨⟩
      omega

theorem atLeast_text : atLeast textSize (.int 1) v ↔ v ≠ .str [] := by
  rw [atLeast_one]
  cases v <;> simp [textSize]

theorem atLeast_array : atLeast arraySize (.int 1) v ↔ v ≠ .arr [] := by
  rw [atLeast_one]
  cases v <;> simp [arraySize]

theorem atLeast_object : atLeast objectSize (.int 1) v ↔ v ≠ .obj [] := by
  rw [atLeast_one]
  cases v <;> simp [objectSize]

theorem oneLinePattern_ne : oneLinePattern ≠ identifierPattern := by decide

theorem pattern_oneLine :
    pattern (.str oneLinePattern) v ↔ ∀ t, v = .str t → Ended IsLine t := by
  constructor
  · intro h t ht
    obtain ⟨-, hline⟩ | ⟨hpattern, -⟩ := h _ t rfl ht
    · exact hline
    · exact absurd hpattern oneLinePattern_ne
  · rintro h _ t ⟨⟩ ht
    exact .inl ⟨rfl, h t ht⟩

theorem pattern_identifier :
    pattern (.str identifierPattern) v ↔ ∀ t, v = .str t → Ended IsName t := by
  constructor
  · intro h t ht
    obtain ⟨hpattern, -⟩ | ⟨-, hname⟩ := h _ t rfl ht
    · exact absurd hpattern.symm oneLinePattern_ne
    · exact hname
  · rintro h _ t ⟨⟩ ht
    exact .inr ⟨rfl, h t ht⟩

theorem const_text {t : String} : const (Published.text t) v ↔ v = .str t.toText := Iff.rfl

theorem enum_texts {choices : List String} : enum (Published.texts choices) v ↔
    ∃ t ∈ choices.map String.toText, v = .str t := by
  simp [enum, Published.texts, Published.text, Json.items, eq_comm]

end Keyword

end Payload

end Graft
