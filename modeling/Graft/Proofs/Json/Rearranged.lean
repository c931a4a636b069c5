import Graft.Json.Basic
import Mathlib.Data.List.Forall2

/-!
# Values up to the order of keys

The keys of an object come in some order, but which one says nothing. `Rearranged` tells that a
value comes of another by nothing else than changing this order, in any of the objects in it. What
is seen of a value without asking for the order is then the same:

> `Rearranged.items`: the items of an array, one by one, up to the order of keys in them;
> `Rearranged.get?`: what stands under a key, up to the order of keys in it;
> `Rearranged.flatMap_fields`: whatever is collected from the fields of an object, in some order.

An object with a key that comes twice is another one when the two change places. Reading a file
gives no such object, so that nothing is lost by asking for different keys.
-/

namespace Graft

/-! ## Looking keys up -/

namespace Table

variable {α : Type} {key : Text} {s t before after : Table α} {v w : α}

/-- Where keys are different, a table gives what is among its entries. -/
theorem get?_eq_some_iff (h : (keys t).Nodup) : get? key t = some v ↔ (key, v) ∈ t := by
  induction t with
  | nil => simp [get?]
  | cons e rest ih =>
    obtain ⟨hkey, hrest⟩ := List.nodup_cons.1 (show (e.1 :: keys rest).Nodup from h)
    rw [get?, List.mem_cons, Prod.ext_iff]
    by_cases he : e.1 = key
    · subst he
      have hnot : (e.1, v) ∉ rest := fun hmem =>
        hkey (List.mem_map.2 ⟨_, hmem, rfl⟩)
      simp [hnot, eq_comm]
    · simp [he, ih hrest, Ne.symm he]

theorem get?_perm (h : (keys s).Nodup) (hperm : s.Perm t) : get? key s = get? key t := by
  have ht : (keys t).Nodup := (hperm.map Prod.fst).nodup_iff.1 h
  ext v
  rw [get?_eq_some_iff h, get?_eq_some_iff ht, hperm.mem_iff]

/-- Another value in an entry changes what is under its key at most. -/
theorem get?_value {R : α → α → Prop} (hrefl : ∀ a, R a a) (h : R v w) (k key : Text)
    (before after : Table α) : Option.Rel R (get? key (before ++ (k, v) :: after))
      (get? key (before ++ (k, w) :: after)) := by
  have hsame : ∀ o : Option α, Option.Rel R o o := by
    rintro (_ | a)
    · exact .none
    · exact .some (hrefl a)
  induction before with
  | nil =>
    rw [List.nil_append, List.nil_append, get?, get?]
    split
    · exact .some h
    · exact hsame _
  | cons e rest ih =>
    rw [List.cons_append, List.cons_append, get?, get?]
    split
    · exact hsame _
    · exact ih

end Table

/-! ## Other orders of keys -/

namespace Json

variable {u v w : Json} {vs ws : List Json} {fs gs : List (Text × Json)} {key t : Text} {α : Type}

/-- One value comes of another by changing the order of the keys in one object after the other,
wherever these are. -/
inductive Rearranged : Json → Json → Prop
  | refl (v : Json) : Rearranged v v
  | trans {u v w : Json} (h : Rearranged u v) (h' : Rearranged v w) : Rearranged u w
  | keys {fs gs : List (Text × Json)} (hdistinct : (Table.keys fs).Nodup) (hperm : fs.Perm gs) :
      Rearranged (.obj fs) (.obj gs)
  | item (before : List Json) {after : List Json} {v w : Json} (h : Rearranged v w) :
      Rearranged (.arr (before ++ v :: after)) (.arr (before ++ w :: after))
  | value (before : List (Text × Json)) {after : List (Text × Json)} {key : Text} {v w : Json}
      (h : Rearranged v w) :
      Rearranged (.obj (before ++ (key, v) :: after)) (.obj (before ++ (key, w) :: after))

namespace Rearranged

/-- Arrays stay arrays and objects stay objects, and anything else does not change. -/
theorem shape (h : Rearranged v w) : v = w ∨ (∃ vs ws, v = .arr vs ∧ w = .arr ws) ∨
    ∃ fs gs, v = .obj fs ∧ w = .obj gs := by
  induction h with
  | refl => exact .inl rfl
  | trans _ _ ih ih' =>
    obtain rfl | ⟨vs, ws, rfl, rfl⟩ | ⟨fs, gs, rfl, rfl⟩ := ih
    · exact ih'
    · obtain rfl | ⟨_, ws', -, rfl⟩ | ⟨_, _, hobj, -⟩ := ih'
      · exact .inr (.inl ⟨vs, ws, rfl, rfl⟩)
      · exact .inr (.inl ⟨vs, ws', rfl, rfl⟩)
      · cases hobj
    · obtain rfl | ⟨_, _, harr, -⟩ | ⟨_, gs', -, rfl⟩ := ih'
      · exact .inr (.inr ⟨fs, gs, rfl, rfl⟩)
      · cases harr
      · exact .inr (.inr ⟨fs, gs', rfl, rfl⟩)
  | keys _ _ => exact .inr (.inr ⟨_, _, rfl, rfl⟩)
  | item _ _ _ => exact .inr (.inl ⟨_, _, rfl, rfl⟩)
  | value _ _ _ => exact .inr (.inr ⟨_, _, rfl, rfl⟩)

theorem str? (h : Rearranged v w) : v.str? = w.str? := by
  obtain rfl | ⟨_, _, rfl, rfl⟩ | ⟨_, _, rfl, rfl⟩ := h.shape <;> rfl

/-! ## Items -/

theorem forall₂_refl (vs : List Json) : List.Forall₂ Rearranged vs vs :=
  List.forall₂_same.2 fun v _ => .refl v

theorem forall₂_trans {us : List Json} (h : List.Forall₂ Rearranged us vs)
    (h' : List.Forall₂ Rearranged vs ws) : List.Forall₂ Rearranged us ws := by
  induction h generalizing ws with
  | nil => exact h'
  | cons huv _ ih =>
    cases h' with
    | cons hvw hrest => exact .cons (huv.trans hvw) (ih hrest)

/-- The items of an array are the same, one by one, up to the order of keys in them. -/
theorem items (h : Rearranged v w) : List.Forall₂ Rearranged v.items w.items := by
  induction h with
  | refl v => exact forall₂_refl v.items
  | trans _ _ ih ih' => exact forall₂_trans ih ih'
  | keys _ _ => exact .nil
  | item _ h _ => exact List.rel_append (forall₂_refl _) (.cons h (forall₂_refl _))
  | value _ _ _ => exact .nil

/-! ## Fields -/

/-- What is collected from the fields of an object is the same up to its order, if what is collected
from each of them is. -/
theorem flatMap_fields {collect : Text × Json → List α}
    (hcollect : ∀ {key v w}, Rearranged v w → (collect (key, v)).Perm (collect (key, w)))
    (h : Rearranged v w) : (v.fields.flatMap collect).Perm (w.fields.flatMap collect) := by
  induction h with
  | refl => exact .refl _
  | trans _ _ ih ih' => exact ih.trans ih'
  | keys _ hperm => exact hperm.flatMap_right collect
  | item _ _ _ => exact .refl _
  | value _ h _ =>
    show (List.flatMap _ (_ ++ _ :: _)).Perm (List.flatMap _ (_ ++ _ :: _))
    rw [List.flatMap_append, List.flatMap_append, List.flatMap_cons, List.flatMap_cons]
    exact ((hcollect h).append_right _).append_left _

/-- The keys are the same up to their order. -/
theorem keys_perm (h : Rearranged v w) : (Table.keys v.fields).Perm (Table.keys w.fields) := by
  have hkeys : ∀ fields : List (Text × Json), Table.keys fields = fields.flatMap ([·.1]) :=
    fun fields => List.map_eq_flatMap
  rw [hkeys, hkeys]
  exact h.flatMap_fields fun _ => .refl _

/-- What stands under a key is the same up to the order of keys in it. -/
theorem get? (h : Rearranged v w) (key : Text) :
    Option.Rel Rearranged (v.get? key) (w.get? key) := by
  induction h with
  | refl v =>
    cases v.get? key with
    | none => exact .none
    | some u => exact .some (.refl u)
  | trans _ _ ih ih' =>
    revert ih ih'
    generalize Json.get? key _ = a
    generalize Json.get? key _ = b
    generalize Json.get? key _ = c
    rintro (hab | _) hbc
    · cases hbc with
      | some hbc => exact .some (hab.trans hbc)
    · exact hbc
  | keys hdistinct hperm =>
    show Option.Rel Rearranged (Table.get? key _) (Table.get? key _)
    rw [Table.get?_perm hdistinct hperm]
    cases Table.get? key _ with
    | none => exact .none
    | some u => exact .some (.refl u)
  | item _ _ _ => exact .none
  | value _ h _ => exact Table.get?_value .refl h _ key _ _

theorem get?_cases (h : Rearranged v w) (key : Text) :
    v.get? key = none ∧ w.get? key = none ∨
      ∃ a b, v.get? key = some a ∧ w.get? key = some b ∧ Rearranged a b := by
  have hget := h.get? key
  generalize v.get? key = found at hget ⊢
  generalize w.get? key = found' at hget ⊢
  cases hget with
  | none => exact .inl ⟨rfl, rfl⟩
  | some hvalue => exact .inr ⟨_, _, rfl, rfl, hvalue⟩

end Rearranged

end Json

end Graft
