import Graft.Proofs.Json.Rearranged
import Graft.Proofs.Payload.Conversion
import Mathlib.Data.List.Lex

/-!
# Fragment files up to the order of keys

What is wrong with a value is collected in the order in which its parts come, and then one of the
violations is picked. Which one that is must not hang on the order of keys, for the file is the same
without it. It does not: the violations stand at the same places (`IsBlind`), and the place that is
picked is the first one of all (`path_le_of_leastOf`), in the order of texts by their code points,
part by part.

> `validate_rearranged`: the order of keys says nothing, neither to whether a file is accepted, nor
> to where a violation is reported, nor to the fragments that the file gives.

What a violation says may well differ, as it shows values with their keys in order.
-/

namespace Graft

namespace Payload

open Check Json

variable {v w : Json} {key : Text} {check : Check} {vs ws : List Violation} {x y : Violation}

/-! ## The order of paths -/

/-- Code points come in the order of their codes. -/
instance : LT CodePoint := ⟨fun c d => c.toNat < d.toNat⟩

instance : LinearOrder CodePoint :=
  .lift' CodePoint.toNat fun _ _ => CodePoint.toNat_inj.1

theorem before_iff_lt {s t : Text} : Text.before s t = true ↔ s < t := by
  fun_induction Text.before s t with
  | case1 s => simp
  | case2 c r => simp
  | case3 c r d s ih =>
    rw [List.cons_lt_cons_iff, Bool.or_eq_true, Bool.and_eq_true, ih, decide_eq_true_iff,
      beq_iff_eq]
    exact Iff.rfl

theorem pathBefore_iff_lt {p q : List Text} : Violation.pathBefore p q = true ↔ p < q := by
  fun_induction Violation.pathBefore p q with
  | case1 p => simp
  | case2 a as => simp
  | case3 a as b bs ih =>
    rw [List.cons_lt_cons_iff, Bool.or_eq_true, Bool.and_eq_true, ih, before_iff_lt, beq_iff_eq]

theorem path_le_of_precedes (h : x.precedes y = true) : x.path ≤ y.path := by
  rcases Bool.or_eq_true_iff.1 h with h | h
  · exact (pathBefore_iff_lt.1 h).le
  · exact (eq_of_beq (Bool.and_eq_true_iff.1 h).1).le

theorem path_le_of_not_precedes (h : x.precedes y = false) : y.path ≤ x.path := by
  rw [← not_lt, ← pathBefore_iff_lt, (Bool.or_eq_false_iff.1 h).1]
  exact Bool.false_ne_true

/-- The place of the violation that is picked is the first one. -/
theorem path_le_of_leastOf (h : Violation.leastOf vs = some x) (hy : y ∈ vs) : x.path ≤ y.path := by
  induction vs generalizing x with
  | nil => cases hy
  | cons z rest ih =>
    rw [Violation.leastOf] at h
    cases hrest : Violation.leastOf rest with
    | none =>
      rw [hrest] at h
      cases h
      rw [leastOf_eq_none_iff.1 hrest, List.mem_singleton] at hy
      exact hy ▸ le_rfl
    | some u =>
      rw [hrest] at h
      dsimp only at h
      cases hprecedes : u.precedes z with
      | true =>
        rw [hprecedes, if_pos rfl] at h
        cases h
        rcases List.mem_cons.1 hy with rfl | hy
        · exact path_le_of_precedes hprecedes
        · exact ih hrest hy
      | false =>
        rw [hprecedes, if_neg Bool.false_ne_true] at h
        cases h
        rcases List.mem_cons.1 hy with rfl | hy
        · exact le_rfl
        · exact (path_le_of_not_precedes hprecedes).trans (ih hrest hy)

/-! ## Violations at the same places -/

/-- The violations of two lists stand at the same places, and as many at each. -/
def SamePlaces (vs ws : List Violation) : Prop :=
  (vs.map (·.path)).Perm (ws.map (·.path))

namespace SamePlaces

theorem refl (vs : List Violation) : SamePlaces vs vs :=
  List.Perm.refl _

theorem append {vs' ws' : List Violation} (h : SamePlaces vs ws) (h' : SamePlaces vs' ws') :
    SamePlaces (vs ++ vs') (ws ++ ws') := by
  unfold SamePlaces
  rw [List.map_append, List.map_append]
  exact List.Perm.append h h'

theorem under (h : SamePlaces vs ws) (part : Text) :
    SamePlaces (vs.map (·.under part)) (ws.map (·.under part)) := by
  have hunder : ∀ us : List Violation,
      (us.map (·.under part)).map (·.path) = (us.map (·.path)).map (part :: ·) := by
    intro us
    rw [List.map_map, List.map_map]
    rfl
  unfold SamePlaces
  rw [hunder, hunder]
  exact h.map _

/-- Violations at the same places come to the same first place, if there are any. -/
theorem leastOf (h : SamePlaces vs ws) :
    (Violation.leastOf vs).map (·.path) = (Violation.leastOf ws).map (·.path) := by
  -- what is picked on one side stands at the place of a violation on the other side
  have hle : ∀ {us us' : List Violation} {x y : Violation}, SamePlaces us us' →
      Violation.leastOf us = some x → Violation.leastOf us' = some y → x.path ≤ y.path := by
    intro us us' x y hus hx hy
    have hmem : y.path ∈ us.map (·.path) :=
      (List.Perm.mem_iff hus).2 (List.mem_map_of_mem (mem_of_leastOf hy))
    obtain ⟨z, hz, hpath⟩ := List.mem_map.1 hmem
    exact hpath ▸ path_le_of_leastOf hx hz
  have hlength : vs.length = ws.length := by simpa using List.Perm.length_eq h
  have hnil : vs = [] ↔ ws = [] := by
    rw [← List.length_eq_zero_iff, hlength, List.length_eq_zero_iff]
  cases hx : Violation.leastOf vs with
  | none => rw [leastOf_eq_none_iff.2 (hnil.1 (leastOf_eq_none_iff.1 hx))]
  | some x =>
    cases hy : Violation.leastOf ws with
    | none =>
      rw [leastOf_eq_none_iff.2 (hnil.2 (leastOf_eq_none_iff.1 hy))] at hx
      cases hx
    | some y => exact congrArg some (le_antisymm (hle h hx hy) (hle h.symm hy hx))

end SamePlaces

/-! ## Checks that do not see the order of keys -/

/-- What a check finds stands at the same places, whatever the order of keys. -/
def IsBlind (check : Check) : Prop :=
  ∀ {v w : Json}, Rearranged v w → SamePlaces (check v) (check w)

namespace IsBlind

/-- So it is if the check looks neither into arrays nor into objects. -/
theorem of_shape (harr : ∀ vs ws, SamePlaces (check (.arr vs)) (check (.arr ws)))
    (hobj : ∀ fs gs, SamePlaces (check (.obj fs)) (check (.obj gs))) : IsBlind check := by
  intro v w h
  obtain rfl | ⟨vs, ws, rfl, rfl⟩ | ⟨fs, gs, rfl, rfl⟩ := h.shape
  · exact .refl _
  · exact harr vs ws
  · exact hobj fs gs

theorem isText : IsBlind isText :=
  of_shape (fun _ _ => .refl _) fun _ _ => .refl _

theorem isTextOrNull : IsBlind isTextOrNull :=
  of_shape (fun _ _ => .refl _) fun _ _ => .refl _

theorem isArray : IsBlind isArray :=
  of_shape (fun _ _ => .refl _) fun _ _ => .refl _

theorem isObject : IsBlind isObject :=
  of_shape (fun _ _ => .refl _) fun _ _ => .refl _

theorem notEmptyText : IsBlind notEmptyText :=
  of_shape (fun _ _ => .refl _) fun _ _ => .refl _

theorem matching (pattern : Text) (p : Text → Bool) : IsBlind (matching pattern p) :=
  of_shape (fun _ _ => .refl _) fun _ _ => .refl _

theorem isConstant (expected : Text) : IsBlind (isConstant expected) :=
  of_shape (fun _ _ => .refl _) fun _ _ => .refl _

theorem isOneOf (choices : List Text) : IsBlind (isOneOf choices) :=
  of_shape (fun _ _ => .refl _) fun _ _ => .refl _

/-- Items do not get lost, so that an array stays empty or not. -/
theorem notEmptyArray : IsBlind notEmptyArray := by
  intro v w h
  have hitems := h.items
  obtain rfl | ⟨vs, ws, rfl, rfl⟩ | ⟨fs, gs, rfl, rfl⟩ := h.shape
  · exact .refl _
  · cases show List.Forall₂ Rearranged vs ws from hitems with
    | nil => exact .refl _
    | cons => exact .refl _
  · exact .refl _

theorem notEmptyObject : IsBlind notEmptyObject := by
  intro v w h
  obtain rfl | ⟨vs, ws, rfl, rfl⟩ | ⟨fs, gs, rfl, rfl⟩ := h.shape
  · exact .refl _
  · exact .refl _
  · have hkeys : (Table.keys fs).Perm (Table.keys gs) := h.keys_perm
    have hlength : fs.length = gs.length := by simpa [Table.keys] using hkeys.length_eq
    cases fs with
    | nil =>
      rw [List.length_eq_zero_iff.1 hlength.symm]
      exact .refl _
    | cons f fs =>
      obtain ⟨g, gs, rfl⟩ := List.exists_cons_of_length_eq_add_one hlength.symm
      exact .refl _

theorem hasKeys (keys : List Text) : IsBlind (hasKeys keys) := by
  intro v w h
  obtain rfl | ⟨vs, ws, rfl, rfl⟩ | ⟨fs, gs, rfl, rfl⟩ := h.shape
  · exact .refl _
  · exact .refl _
  · have hkeys : (Table.keys fs).Perm (Table.keys gs) := h.keys_perm
    have hmissing : ∀ k, (!(Table.keys fs).elem k) = !(Table.keys gs).elem k := by
      intro k
      rw [List.elem_eq_contains, List.elem_eq_contains, hkeys.contains_eq]
    unfold Check.hasKeys
    simp only [hmissing]
    exact .refl _

theorem onlyKeys (keys : List Text) : IsBlind (onlyKeys keys) := by
  intro v w h
  obtain rfl | ⟨vs, ws, rfl, rfl⟩ | ⟨fs, gs, rfl, rfl⟩ := h.shape
  · exact .refl _
  · exact .refl _
  · have hkeys : (Table.keys fs).Perm (Table.keys gs) := h.keys_perm
    have hextra := hkeys.filter fun k => !keys.elem k
    unfold Check.onlyKeys
    dsimp only
    rw [hextra.isEmpty_eq]
    split
    · exact .refl _
    · exact .refl _

theorem atKey (key : Text) (hcheck : IsBlind check) : IsBlind (atKey key check) := by
  intro v w h
  unfold Check.atKey
  obtain ⟨hv, hw⟩ | ⟨a, b, hv, hw, hvalue⟩ := h.get?_cases key
  · rw [hv, hw]
    exact .refl _
  · rw [hv, hw]
    exact (hcheck hvalue).under key

theorem eachItem (hcheck : IsBlind check) : IsBlind (eachItem check) := by
  have hfrom : ∀ {vs ws : List Json}, List.Forall₂ Rearranged vs ws → ∀ n,
      SamePlaces (inItems check n vs) (inItems check n ws) := by
    intro vs ws h
    induction h with
    | nil => exact fun n => .refl _
    | cons hvalue _ ih => exact fun n => ((hcheck hvalue).under _).append (ih (n + 1))
  intro v w h
  exact hfrom h.items 0

/-- What is found in the fields of an object comes in another order. -/
theorem of_fields {find : Text × Json → List Violation}
    (hfind : ∀ {key v w}, Rearranged v w → SamePlaces (find (key, v)) (find (key, w))) :
    IsBlind fun v => v.fields.flatMap find := by
  intro v w h
  unfold SamePlaces
  rw [List.map_flatMap, List.map_flatMap]
  exact h.flatMap_fields hfind

theorem eachField (hcheck : IsBlind check) : IsBlind (eachField check) :=
  of_fields fun h => (hcheck h).under _

theorem eachKey : IsBlind (eachKey check) :=
  of_fields fun _ => .refl _

theorem all_nil : IsBlind (all []) :=
  fun _ => .refl _

theorem all_cons {checks : List Check} (hcheck : IsBlind check) (hrest : IsBlind (all checks)) :
    IsBlind (all (check :: checks)) :=
  fun h => (hcheck h).append (hrest h)

/-! ## The format -/

theorem filledText : IsBlind filledText :=
  all_cons isText (all_cons notEmptyText all_nil)

theorem filledTexts : IsBlind filledTexts :=
  all_cons isArray (all_cons (eachItem filledText) all_nil)

theorem filledTextOrNull : IsBlind (all [Check.isTextOrNull, Check.notEmptyText]) :=
  all_cons isTextOrNull (all_cons notEmptyText all_nil)

theorem line {pattern : Text} {p : Text → Bool} :
    IsBlind (all [Check.isText, Check.notEmptyText, Check.matching pattern p]) :=
  all_cons isText (all_cons notEmptyText (all_cons (matching _ _) all_nil))

/-- What kind an anchor is of does not hang on the order of keys. -/
theorem namesBlock : IsBlind namesBlock := by
  intro v w h
  have hblock := hasKeys ["block".toText] h
  unfold Payload.namesBlock
  obtain ⟨hv, hw⟩ | ⟨a, b, hv, hw, hkind⟩ := h.get?_cases "kind".toText
  · rw [hv, hw]
    exact hblock
  · rw [hv, hw]
    obtain rfl | ⟨_, _, rfl, rfl⟩ | ⟨_, _, rfl, rfl⟩ := hkind.shape
    · cases a with
      | str kind =>
        dsimp only
        split
        · exact hblock
        · exact .refl _
      | _ => exact .refl _
    · exact .refl _
    · exact .refl _

theorem anchor : IsBlind anchor :=
  all_cons isObject <| all_cons (hasKeys _) <| all_cons (onlyKeys _) <|
    all_cons (atKey _ (isOneOf _)) <| all_cons (atKey _ filledText) <| all_cons namesBlock all_nil

theorem fragment : IsBlind fragment :=
  all_cons isObject <| all_cons (hasKeys _) <| all_cons (onlyKeys _) <|
    all_cons (atKey _ line) <| all_cons (atKey _ filledText) <| all_cons (atKey _ anchor) <|
      all_cons (atKey _ filledTexts) <| all_cons (atKey _ filledTextOrNull) <|
        all_cons (atKey _ filledTexts) <| all_cons (atKey _ isText) all_nil

theorem versions : IsBlind versions :=
  all_cons isObject <| all_cons notEmptyObject <| all_cons eachKey <|
    all_cons (eachField filledText) all_nil

theorem violations : IsBlind violations :=
  all_cons isObject <| all_cons (hasKeys _) <| all_cons (onlyKeys _) <|
    all_cons (atKey _ (isConstant _)) <|
      all_cons (atKey _ (all_cons isArray (all_cons notEmptyArray
        (all_cons (eachItem fragment) all_nil)))) <|
        all_cons (atKey _ (all_cons isObject (all_cons (eachField versions) all_nil))) all_nil

end IsBlind

/-! ## Fragments do not see the order of keys -/

theorem textAt?_rearranged (h : Rearranged v w) (key : Text) : textAt? key v = textAt? key w := by
  unfold textAt?
  obtain ⟨hv, hw⟩ | ⟨a, b, hv, hw, hvalue⟩ := h.get?_cases key
  · rw [hv, hw]
  · rw [hv, hw]
    exact hvalue.str?

/-- What is made of each item of an array under a key is the same, if it is for items that differ in
the order of keys. -/
theorem map_items_rearranged {α : Type} {f : Json → α}
    (hf : ∀ {v w : Json}, Rearranged v w → f v = f w) (h : Rearranged v w) (key : Text) :
    (((v.get? key).map Json.items).getD []).map f =
      (((w.get? key).map Json.items).getD []).map f := by
  obtain ⟨hv, hw⟩ | ⟨a, b, hv, hw, hvalue⟩ := h.get?_cases key
  · rw [hv, hw]
  · rw [hv, hw, ← List.forall₂_eq_eq_eq, List.forall₂_map_left_iff, List.forall₂_map_right_iff]
    exact hvalue.items.imp fun _ _ hitem => hf hitem

theorem textsAt_rearranged (h : Rearranged v w) (key : Text) :
    textsAt key v = textsAt key w := by
  have hmap : ∀ vs : List Json, vs.filterMap Json.str? = (vs.map Json.str?).filterMap id := by
    intro vs
    rw [List.filterMap_map]
    rfl
  rw [textsAt, textsAt, hmap, hmap, map_items_rearranged Rearranged.str? h]

theorem anchorOf_rearranged (h : Rearranged v w) : anchorOf v = anchorOf w := by
  rw [anchorOf, anchorOf, textAt?_rearranged h, textAt?_rearranged h]

theorem fragmentOf_rearranged (h : Rearranged v w) : fragmentOf v = fragmentOf w := by
  have hanchor : anchorOf ((v.get? "anchor".toText).getD .null) =
      anchorOf ((w.get? "anchor".toText).getD .null) := by
    obtain ⟨hv, hw⟩ | ⟨a, b, hv, hw, hvalue⟩ := h.get?_cases "anchor".toText
    · rw [hv, hw]
    · rw [hv, hw]
      exact anchorOf_rearranged hvalue
  simp only [fragmentOf, hanchor, textAt?_rearranged h, textsAt_rearranged h]

theorem fragmentList_rearranged (h : Rearranged v w) : fragmentList v = fragmentList w :=
  map_items_rearranged fragmentOf_rearranged h _

/-! ## Fragment files -/

theorem validate_eq_error_iff :
    validate v = .error x ↔ Violation.leastOf (violations v) = some x := by
  unfold validate
  cases Violation.leastOf (violations v) <;> simp

/-- A violation that is reported is at the first of the places to which the schema objects. -/
theorem objects_of_validate (h : validate v = .error x) (depth : Nat) :
    Keyword.Objects Published.schema (depth + 8) Published.schema v x.path ∧
      ∀ p, Keyword.Objects Published.schema (depth + 8) Published.schema v p → x.path ≤ p := by
  rw [validate_eq_error_iff] at h
  refine ⟨Keyword.objects_schema_iff.2 ⟨x, mem_of_leastOf h, rfl⟩, fun p hp => ?_⟩
  obtain ⟨y, hy, rfl⟩ := Keyword.objects_schema_iff.1 hp
  exact path_le_of_leastOf h hy

/-- A value and the same value with keys in other orders are both accepted or both refused. If they
are refused, then for violations at one and the same place, which is the first place in either of
them where there is a violation. If they are accepted, they give the same fragments, or are found
wanting for the same reason. -/
theorem validate_rearranged (h : Rearranged v w) :
    (validate v = .ok () ↔ validate w = .ok ()) ∧
    (∀ x, validate v = .error x → x ∈ violations v ∧
      ∃ y ∈ violations w, validate w = .error y ∧ y.path = x.path ∧
        ∀ z ∈ violations v ++ violations w, x.path ≤ z.path) ∧
    (validate v = .ok () → fragments v = fragments w) := by
  have hleast := (IsBlind.violations h).leastOf
  have hok : validate v = .ok () ↔ validate w = .ok () := by
    rw [validate_eq_ok, validate_eq_ok, ← leastOf_eq_none_iff, ← leastOf_eq_none_iff,
      ← Option.map_eq_none_iff, hleast, Option.map_eq_none_iff]
  refine ⟨hok, fun x hx => ?_, fun haccepted => ?_⟩
  · rw [validate_eq_error_iff] at hx
    rw [hx, Option.map_some] at hleast
    obtain ⟨y, hy, hpath⟩ := Option.map_eq_some_iff.1 hleast.symm
    refine ⟨mem_of_leastOf hx, y, mem_of_leastOf hy, validate_eq_error_iff.2 hy, hpath, ?_⟩
    intro z hz
    rcases List.mem_append.1 hz with hz | hz
    · exact path_le_of_leastOf hx hz
    · exact le_of_eq_of_le hpath.symm (path_le_of_leastOf hy hz)
  · rw [fragments_of_validate haccepted, fragments_of_validate (hok.1 haccepted),
      fragmentList_rearranged h]

/-- The fragment of `plainFragment` with its keys and those of its anchor from the last to the
first. -/
def turnedFragment : Json := .obj [
  ("block".toText, .null),
  ("required".toText, .arr [.str "x:core".toText]),
  ("anchor".toText, .obj [
    ("block".toText, .str "dependencies".toText), ("kind".toText, .str "block".toText)]),
  ("template".toText, .str "implementation 'x:core:$core'".toText),
  ("marker".toText, .str "// m".toText)]

/-- A fragment file with this fragment and some version sets, which come first. -/
def turnedFile (sets : List (Text × Json)) : Json := .obj [
  ("version_sets".toText, .obj sets), ("fragments".toText, .arr [turnedFragment]),
  ("contract".toText, .str contract)]

theorem rearranged_turnedFile (sets : List (Text × Json)) :
    Rearranged (plainFile sets) (turnedFile sets) := by
  have hfragment : Rearranged plainFragment turnedFragment := by
    refine .trans (.keys (by decide) (List.reverse_perm _).symm) ?_
    exact .value [_, _] (.keys (by decide) (List.reverse_perm _).symm)
  have hdistinct : ["contract".toText, "fragments".toText, "version_sets".toText].Nodup := by decide
  refine .trans (.keys hdistinct (List.reverse_perm _).symm) ?_
  exact .value [_] (.item [] hfragment)

theorem validate_rearranged_turnedFile :
    (Rearranged hollowFile (turnedFile [("Stable".toText, .obj [])]) ∧
      ∃ x y, validate hollowFile = .error x ∧
        validate (turnedFile [("Stable".toText, .obj [])]) = .error y ∧
        x.path = ["version_sets".toText, "Stable".toText] ∧ y.path = x.path) ∧
    Rearranged filledFile (turnedFile [("Stable".toText, coreVersion "1.0")]) ∧
      fragments filledFile = fragments (turnedFile [("Stable".toText, coreVersion "1.0")]) := by
  have hhollow := rearranged_turnedFile [("Stable".toText, .obj [])]
  have hfilled := rearranged_turnedFile [("Stable".toText, coreVersion "1.0")]
  obtain ⟨x, hx, hpath⟩ := Option.map_eq_some_iff.1
    (show (Violation.leastOf (violations hollowFile)).map (·.path) =
      some ["version_sets".toText, "Stable".toText] by decide +kernel)
  have herror := validate_eq_error_iff.2 hx
  obtain ⟨-, y, -, hy, hsame, -⟩ := (validate_rearranged hhollow).2.1 x herror
  exact ⟨⟨hhollow, x, y, herror, hy, hpath, hsame⟩, hfilled,
    (validate_rearranged hfilled).2.2 (eq_ok_of_toOption (by decide +kernel))⟩

end Payload

end Graft
