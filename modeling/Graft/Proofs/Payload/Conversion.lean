import Graft.Proofs.Payload.Places
import Graft.Proofs.Steps
import Mathlib.Data.List.Forall2

/-!
# What a fragment file gives

Fragments are read key by key, and a key that is not there, or has something else than expected
under it, would be read as nothing at all. The check in front is what rules this out: in a value of
the grammar every part of a fragment stands where it is looked for (`Describes`), and what may be
left out is empty. Nothing is refused any more then, unless the fragments cannot be used together.

> `fragments_spec`: what is accepted, and what the fragments of it are.
-/

namespace Graft

namespace Payload

variable {v w : Json} {t key : Text} {ts : List Text} {f : Fragment}

/-! ## What is read -/

/-- Texts are what an array under a key lists; without the key there are none. -/
def Lists (key : Text) (v : Json) (ts : List Text) : Prop :=
  v.get? key = some (.arr (ts.map .str)) ∨ v.get? key = none ∧ ts = []

/-- An anchor is the one that an object describes. -/
inductive DescribesAnchor (v : Json) : Anchor → Prop
  | inBlock {name : Text} (hkind : v.get? "kind".toText = some (.str "block".toText))
      (hblock : v.get? "block".toText = some (.str name)) : DescribesAnchor v (.inBlock name)
  | endOfFile (hkind : v.get? "kind".toText = some (.str "eof".toText)) :
      DescribesAnchor v .endOfFile

/-- A fragment is the one that an object describes. -/
structure Describes (v : Json) (f : Fragment) : Prop where
  marker : v.get? "marker".toText = some (.str f.marker)
  template : v.get? "template".toText = some (.str f.template)
  anchor : ∃ w, v.get? "anchor".toText = some w ∧ DescribesAnchor w f.anchor
  required : Lists "required".toText v f.required
  block : v.get? "block".toText = f.block.map .str ∨
    v.get? "block".toText = some .null ∧ f.block = none
  after : Lists "after".toText v f.after
  description : v.get? "description".toText = some (.str f.description) ∨
    v.get? "description".toText = none ∧ f.description = []

/-- A version set has the values that an object describes, key by key. -/
def DescribesVersions (v : Json) (set : VersionSet) : Prop :=
  v = .obj (set.versions.map fun e => (e.1, .str e.2))

/-- A version set is what a field describes. Its name, under which it stands, is the key of the
field in lower case. -/
def DescribesSet (field : Text × Json) (entry : Text × VersionSet) : Prop :=
  entry.1 = Text.lower field.1 ∧ entry.2.name = Text.lower field.1 ∧
    DescribesVersions field.2 entry.2

/-- Fields are those of an object under a key; without the key there are none. -/
def Fields (key : Text) (v : Json) (fields : List (Text × Json)) : Prop :=
  v.get? key = some (.obj fields) ∨ v.get? key = none ∧ fields = []

/-! ## Reading values of the grammar -/

theorem textAt?_eq (h : v.get? key = some (.str t)) : textAt? key v = some t := by
  rw [textAt?, h]
  rfl

theorem exists_map_str {vs : List Json} (h : ∀ w ∈ vs, IsFilled w) :
    ∃ ts : List Text, vs = ts.map .str ∧ vs.filterMap Json.str? = ts := by
  induction vs with
  | nil => exact ⟨[], rfl, rfl⟩
  | cons w ws ih =>
    obtain ⟨t, rfl, -⟩ := h w List.mem_cons_self
    obtain ⟨ts, rfl, hts⟩ := ih fun w' hw' => h w' (List.mem_cons_of_mem _ hw')
    refine ⟨t :: ts, rfl, ?_⟩
    rw [List.filterMap_cons]
    exact congrArg (t :: ·) hts

theorem lists_textsAt (h : May key AreFilled v) : Lists key v (textsAt key v) := by
  unfold Lists textsAt
  cases hget : v.get? key with
  | none => exact .inr ⟨rfl, rfl⟩
  | some w =>
    obtain ⟨vs, rfl, hvs⟩ := h w hget
    obtain ⟨ts, rfl, hts⟩ := exists_map_str hvs
    left
    show some (Json.arr (ts.map .str)) = some (.arr (((ts.map .str).filterMap Json.str?).map .str))
    rw [hts]

theorem describesAnchor_anchorOf (h : IsAnchor v) : DescribesAnchor v (anchorOf v) := by
  obtain ⟨kind, hkind, rfl | rfl⟩ := h.kind
  · obtain ⟨w, hw⟩ := h.named hkind
    obtain ⟨name, rfl, -⟩ := h.block w hw
    rw [anchorOf, textAt?_eq hkind, if_pos rfl, textAt?_eq hw]
    exact .inBlock hkind hw
  · rw [anchorOf, textAt?_eq hkind, if_neg (by decide)]
    exact .endOfFile hkind

theorem describes_fragmentOf (h : IsFragment v) : Describes v (fragmentOf v) := by
  obtain ⟨_, hmarker, marker, rfl, -⟩ := h.marker
  obtain ⟨_, htemplate, template, rfl, -⟩ := h.template
  obtain ⟨anchor, hanchor, hisAnchor⟩ := h.anchor
  refine ⟨?_, ?_, ⟨anchor, hanchor, ?_⟩, lists_textsAt h.required, ?_, lists_textsAt h.after, ?_⟩
  · show _ = some (Json.str ((textAt? "marker".toText v).getD []))
    rw [textAt?_eq hmarker, hmarker]
    rfl
  · show _ = some (Json.str ((textAt? "template".toText v).getD []))
    rw [textAt?_eq htemplate, htemplate]
    rfl
  · show DescribesAnchor anchor (anchorOf ((v.get? "anchor".toText).getD .null))
    rw [hanchor]
    exact describesAnchor_anchorOf hisAnchor
  · show _ = (textAt? "block".toText v).map Json.str ∨ _ ∧ textAt? "block".toText v = none
    cases hblock : v.get? "block".toText with
    | none =>
      left
      rw [textAt?, hblock]
      rfl
    | some w =>
      rw [textAt?, hblock]
      obtain rfl | ⟨name, rfl, -⟩ := h.block w hblock
      · exact .inr ⟨rfl, rfl⟩
      · exact .inl rfl
  · show _ = some (Json.str ((textAt? "description".toText v).getD [])) ∨
      _ ∧ (textAt? "description".toText v).getD [] = []
    cases hdescription : v.get? "description".toText with
    | none =>
      right
      rw [textAt?, hdescription]
      exact ⟨rfl, rfl⟩
    | some w =>
      obtain ⟨t, rfl⟩ := h.description w hdescription
      left
      rw [textAt?_eq hdescription]
      rfl

theorem textTable_eq {fields : List (Text × Json)} (h : ∀ e ∈ fields, IsFilled e.2) :
    fields = (textTable (.obj fields)).map fun e => (e.1, .str e.2) := by
  show fields = (fields.filterMap fun e => e.2.str?.map (e.1, ·)).map _
  induction fields with
  | nil => rfl
  | cons e rest ih =>
    obtain ⟨key, w⟩ := e
    obtain ⟨t, rfl, -⟩ := h _ List.mem_cons_self
    have hrest := ih fun e he => h e (List.mem_cons_of_mem _ he)
    exact congrArg ((key, Json.str t) :: ·) hrest

theorem describesSet_textTable {e : Text × Json} (h : AreVersions e.2) :
    DescribesSet e (Text.lower e.1, ⟨Text.lower e.1, textTable e.2⟩) := by
  obtain ⟨name, v⟩ := e
  obtain ⟨fields, rfl, -, hfields⟩ := h
  exact ⟨rfl, rfl, congrArg Json.obj (textTable_eq fun e he => (hfields e he).2)⟩

/-! ## What a fragment file gives -/

theorem validate_cases (v : Json) :
    validate v = .ok () ∨ ∃ w ∈ violations v, validate v = .error w := by
  unfold validate
  cases h : Violation.leastOf (violations v) with
  | none => exact .inl rfl
  | some w => exact .inr ⟨w, mem_of_leastOf h, rfl⟩

theorem fragments_of_validate (h : validate v = .ok ()) :
    fragments v = (FragmentSet.ofList (fragmentList v)).mapError .definition := by
  rw [fragments, h]
  rfl

theorem versionSets_of_validate (h : validate v = .ok ()) :
    versionSets v = .ok (versionSetTable v) := by
  rw [versionSets, h]
  rfl

/-- Fragments make a set unless they cannot be used together. -/
theorem mapError_ofList_cases (fs : List Fragment) :
    (∃ set, (FragmentSet.ofList fs).mapError PayloadError.definition = .ok set ∧
        set.fragments = fs) ∨
      ∃ e, (FragmentSet.ofList fs).mapError PayloadError.definition = .error (.definition e) ∧
        Fragment.checkAll fs = .error e := by
  cases h : FragmentSet.ofList fs with
  | ok set => exact .inl ⟨set, rfl, FragmentSet.fragments_of_ofList h⟩
  | error e =>
    refine .inr ⟨e, rfl, ?_⟩
    unfold FragmentSet.ofList at h
    split at h
    · cases h
    · next hcheck =>
      cases h
      exact hcheck

theorem fragments_of_isPayload (h : IsPayload v) :
    ∃ vs fs, v.get? "fragments".toText = some (.arr vs) ∧ List.Forall₂ Describes vs fs ∧
      ((∃ set, fragments v = .ok set ∧ set.fragments = fs) ∨
        ∃ e, fragments v = .error (.definition e) ∧ Fragment.checkAll fs = .error e) := by
  obtain ⟨_, hget, vs, rfl, -, hvs⟩ := h.fragments
  have hlist : fragmentList v = vs.map fragmentOf := by
    rw [fragmentList, hget]
    rfl
  refine ⟨vs, vs.map fragmentOf, hget, ?_, ?_⟩
  · exact List.forall₂_map_right_iff.2
      (List.forall₂_same.2 fun w hw => describes_fragmentOf (hvs w hw))
  · rw [fragments_of_validate (validate_eq_ok_iff.2 h), hlist]
    exact mapError_ofList_cases (vs.map fragmentOf)

theorem versionSets_of_isPayload (h : IsPayload v) :
    ∃ fields sets, Fields "version_sets".toText v fields ∧
      List.Forall₂ DescribesSet fields sets ∧ versionSets v = .ok (Table.ofEntries sets) := by
  rw [versionSets_of_validate (validate_eq_ok_iff.2 h), versionSetTable]
  cases hget : v.get? "version_sets".toText with
  | none => exact ⟨[], [], .inr ⟨hget, rfl⟩, .nil, rfl⟩
  | some w =>
    obtain ⟨fields, rfl, hfields⟩ := h.versionSets w hget
    refine ⟨fields, _, .inl hget, ?_, rfl⟩
    exact List.forall₂_map_right_iff.2
      (List.forall₂_same.2 fun e he => describesSet_textTable (hfields e he))

/-- A value is accepted if it is of the grammar, which is what the published schema accepts. Of such
a value the fragments are those that it describes, in order, and they are refused only if they
cannot be used together; its version sets are those that it describes, each under its name in lower
case. Of any other value there are neither, and what is reported is one of the violations in it. -/
theorem fragments_spec (v : Json) :
    (validate v = .ok () ↔ IsPayload v) ∧
    (∀ depth, Keyword.Accepts Published.schema (depth + 8) Published.schema v ↔ IsPayload v) ∧
    (IsPayload v →
      (∃ vs fs, v.get? "fragments".toText = some (.arr vs) ∧ List.Forall₂ Describes vs fs ∧
        ((∃ set, fragments v = .ok set ∧ set.fragments = fs) ∨
          ∃ e, fragments v = .error (.definition e) ∧ Fragment.checkAll fs = .error e)) ∧
      ∃ fields sets, Fields "version_sets".toText v fields ∧
        List.Forall₂ DescribesSet fields sets ∧ versionSets v = .ok (Table.ofEntries sets)) ∧
    (¬ IsPayload v → ∃ w ∈ violations v, validate v = .error w ∧
      fragments v = .error (.violation w) ∧ versionSets v = .error (.violation w)) := by
  refine ⟨validate_eq_ok_iff, Keyword.accepts_schema_iff,
    fun h => ⟨fragments_of_isPayload h, versionSets_of_isPayload h⟩, fun h => ?_⟩
  obtain hok | ⟨w, hw, herror⟩ := validate_cases v
  · exact absurd (validate_eq_ok_iff.1 hok) h
  · refine ⟨w, hw, herror, ?_, ?_⟩
    · rw [fragments, herror]
      rfl
    · rw [versionSets, herror]
      rfl

/-- A fragment inside a block. -/
def plainFragment : Json := .obj [
  ("marker".toText, .str "// m".toText),
  ("template".toText, .str "implementation 'x:core:$core'".toText),
  ("anchor".toText, .obj [
    ("kind".toText, .str "block".toText), ("block".toText, .str "dependencies".toText)]),
  ("required".toText, .arr [.str "x:core".toText]),
  ("block".toText, .null)]

/-- The values of a version set that has only one. -/
def coreVersion (value : String) : Json :=
  .obj [("core".toText, .str value.toText)]

/-- A fragment file with this fragment and some version sets. -/
def plainFile (sets : List (Text × Json)) : Json := .obj [
  ("contract".toText, .str contract), ("fragments".toText, .arr [plainFragment]),
  ("version_sets".toText, .obj sets)]

/-- A fragment file that is accepted. -/
def filledFile : Json := plainFile [("Stable".toText, coreVersion "1.0")]

/-- A fragment file with a version set that has no values. -/
def hollowFile : Json := plainFile [("Stable".toText, .obj [])]

theorem fragments_spec_filledFile : IsPayload filledFile ∧
    (∃ vs fs, filledFile.get? "fragments".toText = some (.arr vs) ∧
      List.Forall₂ Describes vs fs ∧
      ((∃ set, fragments filledFile = .ok set ∧ set.fragments = fs) ∨
        ∃ e, fragments filledFile = .error (.definition e) ∧ Fragment.checkAll fs = .error e)) ∧
    ¬ IsPayload hollowFile ∧ ∃ w, fragments hollowFile = .error (.violation w) := by
  obtain ⟨haccepted, -, hgiven, -⟩ := fragments_spec filledFile
  have hpayload : IsPayload filledFile := haccepted.1 (eq_ok_of_toOption (by decide +kernel))
  obtain ⟨haccepted', -, -, hrefused⟩ := fragments_spec hollowFile
  have hnot : ¬ IsPayload hollowFile := by
    intro h
    obtain ⟨e, he⟩ := exists_of_toOption_eq_none (x := validate hollowFile) (by decide +kernel)
    rw [haccepted'.2 h] at he
    cases he
  obtain ⟨w, -, -, hw, -⟩ := hrefused hnot
  exact ⟨hpayload, (hgiven hpayload).1, hnot, w, hw⟩

end Payload

end Graft
