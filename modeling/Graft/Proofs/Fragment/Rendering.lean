import Graft.Proofs.Edit.Locating
import Mathlib.Data.List.Infix

/-!
# Templates that are filled

Filling a template is told as a relation, character by character (`Template.Rendered`): two dollar
signs stand for one, where a template may have two, and a placeholder for a value that suits its
name. Whenever filling succeeds the relation holds for the values of the names that were looked up
(`Template.rendered_of_fill`). It can be taken apart at every character that neither belongs to a
placeholder nor is a dollar sign (`Template.Rendered.split`), in particular into lines
(`Template.Rendered.exists_lines`).
-/

namespace Graft

namespace Template

open Text

variable {value? : Text → Option Text} {escapes : Prop} {P : Text → Text → Prop}
  {part : CodePoint → Bool} {p r t u v name : Text} {c : CodePoint} {size : Nat}

/-! ## Placeholders -/

/-- Characters that end a placeholder without being part of it. -/
def Separates (c : CodePoint) : Prop :=
  isIdentifierPart c = false ∧ c ≠ .char '{' ∧ c ≠ .char '}' ∧ c ≠ .char '$'

theorem isIdentifierStart_eq_false (h : isIdentifierPart c = false) :
    isIdentifierStart c = false := by
  obtain ⟨halphanum, hscore⟩ := Bool.or_eq_false_iff.1 h
  refine Bool.or_eq_false_iff.2 ⟨Bool.eq_false_iff.2 fun halpha => ?_, hscore⟩
  rw [CodePoint.isAlphanum_of_isAlpha halpha] at halphanum
  cases halphanum

theorem isWord_of_isIdentifierPart (h : isIdentifierPart c = true) : isWord c = true := by
  rw [isIdentifierPart, Bool.or_eq_true] at h
  rw [isWord, Bool.or_eq_true]
  refine h.imp_left fun hc => ?_
  have hlt : c.toNat < 0x80 := Nat.lt_of_le_of_lt (toNat_of_isAlphanum hc).2 (by decide)
  rw [isAlphanumeric, if_pos hlt, hc]

theorem isWord_of_isIdentifierStart (hc : isIdentifierStart c = true) : isWord c = true := by
  apply isWord_of_isIdentifierPart
  rcases Bool.or_eq_true_iff.1 hc with hc | hc
  · rw [isIdentifierPart, CodePoint.isAlphanum_of_isAlpha hc, Bool.true_or]
  · rw [isIdentifierPart, hc, Bool.or_true]

theorem separates_of_isBlank (h : isBlank c = true) : Separates c := by
  have hne : ∀ d, isBlank d = false → c ≠ d := by
    rintro d hd rfl
    rw [h] at hd
    cases hd
  refine ⟨?_, hne _ (by decide), hne _ (by decide), hne _ (by decide)⟩
  cases hpart : isIdentifierPart c with
  | false => rfl
  | true =>
    have hblank : isBlank c = false := by
      rcases Bool.or_eq_true_iff.1 hpart with hpart | hpart
      · exact isBlank_of_isAlphanum hpart
      · rw [eq_of_beq hpart]
        decide
    rw [h] at hblank
    cases hblank

theorem length_name?_le (h : name? part t = some name) : name.length ≤ t.length := by
  unfold name? at h
  split at h
  · cases h
  · next c r =>
    split at h
    · cases h
      have := (List.takeWhile_prefix part (l := r)).length_le
      simpa using this
    · cases h

/-- A name is the same whatever stands behind a character that ends it. -/
theorem name?_append_cons (hc : Separates c) (r v : Text) :
    name? isIdentifierPart (r ++ c :: v) = name? isIdentifierPart r := by
  cases r with
  | nil =>
    have hstart := isIdentifierStart_eq_false hc.1
    show (if isIdentifierStart c then _ else none) = none
    rw [hstart, if_neg (by simp)]
  | cons d r =>
    have htake : (r ++ c :: v).takeWhile isIdentifierPart = r.takeWhile isIdentifierPart := by
      rw [List.takeWhile_append]
      split
      · next hall =>
        rw [List.takeWhile_cons_of_neg (by simp [hc.1]), List.append_nil]
        exact ((List.takeWhile_prefix _).eq_of_length hall).symm
      · rfl
    rw [List.cons_append, name?, name?, htake]

theorem placeholder?_bare (ht : t.head? ≠ some (.char '{')) :
    placeholder? part t = (name? part t).map fun name => (name, name.length) := by
  unfold placeholder?
  split
  · exact absurd rfl ht
  · rfl

theorem placeholder?_braced (part : CodePoint → Bool) (r : Text) :
    placeholder? part (.char '{' :: r) = (name? part r).bind fun name =>
      if r[name.length]? = some (.char '}') then some (name, name.length + 2) else none := by
  cases hn : name? part r with
  | none => simp [placeholder?, hn]
  | some name => simp [placeholder?, hn]

theorem placeholder?_append_cons (hc : Separates c) (r v : Text) :
    placeholder? isIdentifierPart (r ++ c :: v) = placeholder? isIdentifierPart r := by
  have hname := fun r => name?_append_cons hc r v
  obtain ⟨-, hopening, hclosing, -⟩ := hc
  cases r with
  | nil =>
    rw [placeholder?_bare (by simpa using hopening), hname]
    rfl
  | cons d r =>
    by_cases hd : d = .char '{'
    · subst hd
      rw [List.cons_append, placeholder?_braced, placeholder?_braced, hname]
      cases hn : name? isIdentifierPart r with
      | none => rfl
      | some name =>
        have hle := length_name?_le hn
        -- where the name is all that there is, no closing brace follows
        have hget : (r ++ c :: v)[name.length]? = some (.char '}') ↔
            r[name.length]? = some (.char '}') := by
          rcases Nat.lt_or_eq_of_le hle with hlt | heq
          · rw [List.getElem?_append_left hlt]
          · rw [heq, List.getElem?_append_right (Nat.le_refl _), Nat.sub_self,
              List.getElem?_eq_none (Nat.le_refl _)]
            simpa using hclosing
        simp only [Option.bind_some, hget]
    · have hhead : ∀ w, (d :: w).head? ≠ some (.char '{') := by simpa using hd
      rw [List.cons_append, placeholder?_bare (hhead _), placeholder?_bare (hhead _),
        ← List.cons_append, hname]

theorem size_le (h : placeholder? part t = some (name, size)) : size ≤ t.length := by
  unfold placeholder? at h
  split at h
  · next r =>
    split at h
    · next name' hname =>
      split at h
      · next hclosing =>
        cases h
        obtain ⟨hlt, -⟩ := List.getElem?_eq_some_iff.1 (eq_of_beq hclosing)
        rw [List.length_cons]
        omega
      · cases h
    · cases h
  · obtain ⟨name', hname, heq⟩ := Option.map_eq_some_iff.1 h
    cases heq
    exact length_name?_le hname

theorem name?_ne_nil (h : name? part t = some name) : name ≠ [] := by
  unfold name? at h
  split at h
  · cases h
  · split at h
    · cases h
      exact List.cons_ne_nil _ _
    · cases h

theorem size_pos (h : placeholder? part t = some (name, size)) : 0 < size := by
  by_cases hhead : t.head? = some (.char '{')
  · obtain ⟨r, rfl⟩ := List.head?_eq_some_iff.1 hhead
    rw [placeholder?_braced] at h
    obtain ⟨name', -, hfound⟩ := Option.bind_eq_some_iff.1 h
    split at hfound
    · cases hfound
      omega
    · cases hfound
  · rw [placeholder?_bare hhead] at h
    obtain ⟨name', hname, heq⟩ := Option.map_eq_some_iff.1 h
    cases heq
    exact List.length_pos_of_ne_nil (name?_ne_nil hname)

/-! ## Names that are looked up -/

/-- The names that are looked up when the text after its first `skip` characters is filled. -/
def namesSkipping : Nat → Text → List Text
  | _, [] => []
  | skip + 1, _ :: r => namesSkipping skip r
  | 0, c :: r =>
    if c = .char '$' then
      if r.head? == some (.char '$') then namesSkipping 1 r
      else
        match placeholder? isIdentifierPart r with
        | none => []
        | some (name, size) => name :: namesSkipping size r
    else namesSkipping 0 r

/-- The names that are looked up when a template is filled. -/
def names (template : Text) : List Text :=
  namesSkipping 0 template

theorem namesSkipping_length (p t : Text) : namesSkipping p.length (p ++ t) = names t := by
  induction p with
  | nil => rfl
  | cons c p ih => exact ih

/-! ## Rendering -/

/-- A text is a template with one dollar sign for two of them, where there may be two, and in place
of every placeholder a value that suits its name. -/
inductive Rendered (escapes : Prop) (P : Text → Text → Prop) : Text → Text → Prop
  | nil : Rendered escapes P [] []
  | char {c : CodePoint} {t u : Text} (hc : c ≠ .char '$') (h : Rendered escapes P t u) :
      Rendered escapes P (c :: t) (c :: u)
  | escape {t u : Text} (hescapes : escapes) (h : Rendered escapes P t u) :
      Rendered escapes P (.char '$' :: .char '$' :: t) (.char '$' :: u)
  | placeholder {p name value t u : Text}
      (hp : placeholder? isIdentifierPart (p ++ t) = some (name, p.length))
      (hvalue : P name value) (h : Rendered escapes P t u) :
      Rendered escapes P (.char '$' :: (p ++ t)) (value ++ u)

/-- A text after a dollar sign is cut where the placeholder ends. -/
theorem exists_of_placeholder?
    (h : placeholder? part r = some (name, size)) : ∃ p t, r = p ++ t ∧ size = p.length :=
  ⟨r.take size, r.drop size, (List.take_append_drop _ _).symm, by
    rw [List.length_take, Nat.min_eq_left (size_le h)]⟩

theorem rendered_of_fillSkipping {index : Nat} (h : fillSkipping value? 0 index t = .ok u)
    (hP : ∀ name ∈ names t, ∀ value, value? name = some value → P name value) :
    Rendered True P t u := by
  -- by induction on the length, as escapes and placeholders are passed over at once
  induction hlength : t.length using Nat.strongRecOn generalizing t u index with
  | ind n ih =>
    cases t with
    | nil =>
      cases h
      exact .nil
    | cons c r =>
      rw [List.length_cons] at hlength
      rw [names, namesSkipping] at hP
      rw [fillSkipping] at h
      split at h
      · next hc =>
        subst hc
        rw [if_pos rfl] at hP
        split at h
        · next hescape =>
          rw [if_pos hescape] at hP
          obtain ⟨t, rfl⟩ : ∃ t, r = .char '$' :: t := by
            cases r with
            | nil => cases hescape
            | cons d t =>
              have hd : d = .char '$' := by simpa using hescape
              exact ⟨t, by rw [hd]⟩
          obtain ⟨u, hu, rfl⟩ := exists_of_map_eq_ok h
          rw [List.length_cons] at hlength
          exact .escape trivial (ih t.length (by omega) (t := t) hu hP rfl)
        · next hescape =>
          rw [if_neg hescape] at hP
          split at h
          · cases h
          · next name size hp =>
            rw [hp] at hP
            obtain ⟨hname, hrest⟩ := List.forall_mem_cons.1 hP
            obtain ⟨p, t, rfl, rfl⟩ := exists_of_placeholder? hp
            split at h
            · cases h
            · next value hvalue =>
              obtain ⟨u, hu, rfl⟩ := exists_of_map_eq_ok h
              rw [fillSkipping_length] at hu
              rw [namesSkipping_length] at hrest
              rw [List.length_append] at hlength
              exact .placeholder hp (hname value hvalue) (ih t.length (by omega) hu hrest rfl)
      · next hc =>
        rw [if_neg hc] at hP
        obtain ⟨u, hu, rfl⟩ := exists_of_map_eq_ok h
        exact .char hc (ih r.length (by omega) hu hP rfl)

/-- What filling gives is the template rendered with the values of its names. -/
theorem rendered_of_fill (h : fill value? t = .ok u) :
    Rendered True (fun name value => name ∈ names t ∧ value? name = some value) t u :=
  rendered_of_fillSkipping h fun _ hname _ hvalue => ⟨hname, hvalue⟩

namespace Rendered

/-- Where no dollar sign stands, nothing changes. -/
theorem of_append (hp : .char '$' ∉ p) (h : Rendered escapes P (p ++ t) u) :
    ∃ v, u = p ++ v ∧ Rendered escapes P t v := by
  induction p generalizing u with
  | nil => exact ⟨u, rfl, h⟩
  | cons c r ih =>
    rw [List.mem_cons, not_or] at hp
    generalize hw : c :: r ++ t = w at h
    cases h with
    | nil => cases hw
    | char hc h =>
      obtain ⟨rfl, rfl⟩ := List.cons.inj hw
      obtain ⟨v, rfl, hv⟩ := ih hp.2 h
      exact ⟨v, rfl, hv⟩
    | escape => exact absurd (List.cons.inj hw).1.symm hp.1
    | placeholder => exact absurd (List.cons.inj hw).1.symm hp.1

/-- A rendered text can be taken apart at a character that belongs to no placeholder. -/
theorem split (hc : Separates c) (h : Rendered escapes P (t ++ c :: v) u) :
    ∃ u₁ u₂, u = u₁ ++ c :: u₂ ∧ Rendered escapes P t u₁ ∧ Rendered escapes P v u₂ := by
  have hdollar : c ≠ .char '$' := hc.2.2.2
  generalize heq : t ++ c :: v = w at h
  induction h generalizing t with
  | nil => simp at heq
  | @char d w u hd h ih =>
    cases t with
    | nil =>
      cases heq
      exact ⟨[], u, rfl, .nil, h⟩
    | cons e t =>
      obtain ⟨rfl, hrest⟩ := List.cons.inj heq
      obtain ⟨u₁, u₂, rfl, ht, hv⟩ := ih hrest
      exact ⟨e :: u₁, u₂, rfl, .char hd ht, hv⟩
  | @escape w u hescapes h ih =>
    match t with
    | [] => exact absurd (List.cons.inj heq).1 hdollar
    | [e] => exact absurd (List.cons.inj (List.cons.inj heq).2).1 hdollar
    | e :: e' :: t =>
      obtain ⟨rfl, hsecond⟩ := List.cons.inj heq
      obtain ⟨rfl, hrest⟩ := List.cons.inj hsecond
      obtain ⟨u₁, u₂, rfl, ht, hv⟩ := ih hrest
      exact ⟨.char '$' :: u₁, u₂, rfl, .escape hescapes ht, hv⟩
  | @placeholder p name value w u hp hvalue h ih =>
    cases t with
    | nil => exact absurd (List.cons.inj heq).1 hdollar
    | cons e t =>
      obtain ⟨rfl, hrest⟩ := List.cons.inj heq
      have hrest : t ++ c :: v = p ++ w := hrest
      have hp' := hp
      rw [← hrest, placeholder?_append_cons hc] at hp'
      -- the placeholder is over before the character
      obtain ⟨more, rfl⟩ : ∃ more, t = p ++ more := by
        have hprefix : p <+: t := List.prefix_of_prefix_length_le
          ⟨w, hrest.symm⟩ (List.prefix_append _ _) (size_le hp')
        obtain ⟨more, hmore⟩ := hprefix
        exact ⟨more, hmore.symm⟩
      rw [List.append_assoc] at hrest
      obtain ⟨u₁, u₂, rfl, ht, hv⟩ := ih (List.append_cancel_left hrest)
      exact ⟨value ++ u₁, u₂, by rw [List.append_assoc], .placeholder hp' hvalue ht, hv⟩

/-- Blanks at the end belong to no placeholder. -/
theorem of_append_blanks (hp : allBlank p = true) (h : Rendered escapes P (t ++ p) u) :
    ∃ v, u = v ++ p ∧ Rendered escapes P t v := by
  cases p with
  | nil =>
    rw [List.append_nil] at h
    exact ⟨u, (List.append_nil u).symm, h⟩
  | cons c r =>
    obtain ⟨hc, hr⟩ := Bool.and_eq_true_iff.1 hp
    obtain ⟨u₁, u₂, rfl, ht, hrest⟩ := h.split (separates_of_isBlank hc)
    rw [← List.append_nil r] at hrest
    obtain ⟨w, rfl, hw⟩ := hrest.of_append (not_mem_of_allBlank (by decide) hr)
    cases hw
    exact ⟨u₁, by rw [List.append_nil], ht⟩

/-- A character that belongs to no placeholder is still there. -/
theorem mem (hc : Separates c) (h : Rendered escapes P t u) (ht : c ∈ t) : c ∈ u := by
  obtain ⟨r, v, rfl⟩ := List.append_of_mem ht
  obtain ⟨u₁, u₂, rfl, -, -⟩ := h.split hc
  simp

/-- Lines are rendered one by one. -/
theorem exists_lines {ls : List Text} (h : Rendered escapes P (join [.char '\n'] ls) u) :
    ∃ ms, List.Forall₂ (Rendered escapes P) ls ms ∧ u = join [.char '\n'] ms := by
  fun_induction join [.char '\n'] ls generalizing u with
  | case1 =>
    cases h
    exact ⟨[], .nil, rfl⟩
  | case2 l => exact ⟨[u], .cons h .nil, rfl⟩
  | case3 l ls hls ih =>
    rw [List.append_assoc] at h
    obtain ⟨v, w, rfl, hv, hw⟩ := Rendered.split (separates_of_isBlank (by decide)) h
    obtain ⟨ms, hms, rfl⟩ := ih hw
    have hne : ms ≠ [] := by
      rintro rfl
      cases hms
      exact hls rfl
    exact ⟨v :: ms, .cons hv hms, by rw [join_cons hne]; rfl⟩

/-- A character comes from the template or from a value. -/
theorem not_mem (hP : ∀ name value, P name value → c ∉ value) (h : Rendered escapes P t u)
    (ht : c ∉ t) : c ∉ u := by
  induction h with
  | nil => exact ht
  | char _ _ ih =>
    rw [List.mem_cons, not_or] at ht ⊢
    exact ⟨ht.1, ih ht.2⟩
  | escape _ _ ih =>
    rw [List.mem_cons, List.mem_cons, not_or, not_or] at ht
    rw [List.mem_cons, not_or]
    exact ⟨ht.1, ih ht.2.2⟩
  | placeholder _ hvalue _ ih =>
    rw [List.mem_cons, List.mem_append, not_or, not_or] at ht
    rw [List.mem_append, not_or]
    exact ⟨hP _ _ hvalue, ih ht.2.2⟩

end Rendered

end Template

end Graft
