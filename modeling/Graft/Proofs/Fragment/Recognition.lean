import Graft.Proofs.Fragment.Matching

/-!
# Filled lines are recognised

A line of a template and the pattern made of it are read with different notions of a placeholder.
Without braces its name takes in letters of every script where a pattern is made, but only those of
the basic alphabet where the template is filled; and the pattern does not know that two dollar signs
stand for one. Rendered text is therefore cut once more, as the pattern cuts it
(`Template.Aligned`). What the pattern takes for a longer name stands in the place of some text free
of quotes. Of two dollar signs it takes the second one for the start of a placeholder, if what
follows reads as a name, and then what is left of them is right (`Template.NamesEscapes`).

> `Declaration.fits_of_rendered`: a declaration line of a template, rendered with plain values, fits
> its pattern, if it has two dollar signs before names only.

Filling without escapes and with plain values only is a relation of its own (`Template.Filled`), but
a case of the general one (`Template.filled_eq`).
-/

namespace Graft

namespace Template

open Text

variable {value? : Text → Option Text} {escapes : Prop} {P : Text → Text → Prop}
  {p r t u name : Text} {c : CodePoint} {size : Nat}

/-! ## Filling -/

/-- A value without quotes and line breaks. -/
def IsPlain (value : Text) : Prop :=
  ∀ c ∈ value, isLineBreak c = false ∧ c ≠ .char '\'' ∧ c ≠ .char '"'

theorem isValueChar_of_isPlain {value : Text} (h : IsPlain value) :
    value.all Declaration.isValueChar = true := by
  rw [List.all_eq_true]
  intro c hc
  obtain ⟨hbreak, hsingle, hdouble⟩ := h c hc
  have hfeed : c ≠ .char '\n' := by
    rintro rfl
    cases hbreak
  simp [Declaration.isValueChar, hsingle, hdouble, hfeed]

/-- A text that is filled with plain values: characters stay, and placeholders give way. -/
inductive Filled (value? : Text → Option Text) : Text → Text → Prop
  | nil : Filled value? [] []
  | char {c : CodePoint} {t u : Text} (hc : c ≠ .char '$') (h : Filled value? t u) :
      Filled value? (c :: t) (c :: u)
  | placeholder {p name value t u : Text}
      (hp : placeholder? isIdentifierPart (p ++ t) = some (name, p.length))
      (hvalue : value? name = some value) (hplain : IsPlain value) (h : Filled value? t u) :
      Filled value? (.char '$' :: (p ++ t)) (value ++ u)

/-- Every dollar sign of a text starts a placeholder for a plain value. -/
def IsSound (value? : Text → Option Text) (t : Text) : Prop :=
  ∀ u r, t = u ++ .char '$' :: r → ∃ name size value,
    placeholder? isIdentifierPart r = some (name, size) ∧ value? name = some value ∧ IsPlain value

instance (value : Text) : Decidable (IsPlain value) :=
  inferInstanceAs (Decidable (∀ c ∈ value, isLineBreak c = false ∧ c ≠ .char '\'' ∧ c ≠ .char '"'))

/-- Whether a text does not start with a dollar sign, or with one that starts a placeholder for a
plain value. -/
def startsSound (value? : Text → Option Text) : Text → Bool
  | [] => true
  | c :: r => c != .char '$' || (placeholder? isIdentifierPart r).any fun e =>
      (value? e.1).any fun value => decide (IsPlain value)

theorem isSound_iff : IsSound value? t ↔ ∀ u ∈ t.tails, startsSound value? u = true := by
  have hdollar : ∀ r, startsSound value? (.char '$' :: r) = true ↔ ∃ name size value,
      placeholder? isIdentifierPart r = some (name, size) ∧ value? name = some value ∧
        IsPlain value := by
    intro r
    simp [startsSound, Option.any_eq_true]
  constructor
  · intro h u hu
    obtain ⟨front, rfl⟩ := (List.mem_tails _ _).1 hu
    cases u with
    | nil => rfl
    | cons c r =>
      by_cases hc : c = .char '$'
      · subst hc
        exact (hdollar r).2 (h front r rfl)
      · simp [startsSound, hc]
  · rintro h u r rfl
    exact (hdollar r).1 (h _ ((List.mem_tails _ _).2 (List.suffix_append _ _)))

instance (value? : Text → Option Text) (t : Text) : Decidable (IsSound value? t) :=
  decidable_of_iff _ isSound_iff.symm

/-- A sound text can be filled. -/
theorem IsSound.exists_filled (h : IsSound value? t) : ∃ u, Filled value? t u := by
  induction hlength : t.length using Nat.strongRecOn generalizing t with
  | ind n ih =>
    have hrest : ∀ front back, t = front ++ back → back.length < n → ∃ u, Filled value? back u := by
      rintro front back rfl hlt
      refine ih _ hlt (t := back) ?_ rfl
      rintro u r rfl
      exact h (front ++ u) r (by rw [List.append_assoc])
    cases t with
    | nil => exact ⟨[], .nil⟩
    | cons c r =>
      rw [List.length_cons] at hlength
      by_cases hc : c = .char '$'
      · subst hc
        obtain ⟨name, size, value, hp, hvalue, hplain⟩ := h [] r rfl
        obtain ⟨p, t, rfl, rfl⟩ := exists_of_placeholder? hp
        rw [List.length_append] at hlength
        obtain ⟨u, hu⟩ := hrest (.char '$' :: p) t rfl (by omega)
        exact ⟨value ++ u, .placeholder hp hvalue hplain hu⟩
      · obtain ⟨u, hu⟩ := hrest [c] r rfl (by omega)
        exact ⟨c :: u, .char hc hu⟩

/-- A value that a name stands for, and a plain one. -/
def Suits (value? : Text → Option Text) (name value : Text) : Prop :=
  value? name = some value ∧ IsPlain value

/-- To be filled is to be rendered with the plain values of the names, without escapes. -/
theorem filled_eq (value? : Text → Option Text) :
    Filled value? = Rendered False (Suits value?) := by
  funext t u
  refine propext ⟨fun h => ?_, fun h => ?_⟩
  · induction h with
    | nil => exact .nil
    | char hc _ ih => exact .char hc ih
    | placeholder hp hvalue hplain _ ih => exact .placeholder hp ⟨hvalue, hplain⟩ ih
  · induction h with
    | nil => exact .nil
    | char hc _ ih => exact .char hc ih
    | escape hescapes => exact hescapes.elim
    | placeholder hp hvalue _ ih => exact .placeholder hp hvalue.1 hvalue.2 ih

namespace Filled

/-- Filling gives what the relation says. -/
theorem fill (h : Filled value? t u) : Template.fill value? t = .ok u := by
  have hfrom : ∀ index, fillSkipping value? 0 index t = .ok u := by
    induction h with
    | nil => exact fun _ => rfl
    | @char c t u hc h ih =>
      intro index
      rw [fillSkipping, if_neg hc, ih]
      rfl
    | @placeholder p name value t u hp hvalue hplain h ih =>
      intro index
      have hdollar : ((p ++ t).head? == some (.char '$')) = false := by
        rw [beq_eq_false_iff_ne]
        intro hhead
        cases hpt : p ++ t with
        | nil =>
          rw [hpt] at hhead
          cases hhead
        | cons c r =>
          rw [hpt] at hhead hp
          cases hhead
          cases hp
      rw [fillSkipping, if_pos rfl, hdollar, if_neg (by simp), hp]
      dsimp only
      rw [hvalue]
      dsimp only
      rw [fillSkipping_length, ih]
      rfl
  exact hfrom 0

/-- Where no dollar sign stands, nothing changes. -/
theorem of_append (hp : .char '$' ∉ p) (h : Filled value? (p ++ t) u) :
    ∃ v, u = p ++ v ∧ Filled value? t v := by
  rw [filled_eq] at h ⊢
  exact h.of_append hp

/-- Blanks at the end belong to no placeholder. -/
theorem of_append_blanks (hp : allBlank p = true) (h : Filled value? (t ++ p) u) :
    ∃ v, u = v ++ p ∧ Filled value? t v := by
  rw [filled_eq] at h ⊢
  exact h.of_append_blanks hp

/-- A character that belongs to no placeholder is still there. -/
theorem mem (hc : Separates c) (h : Filled value? t u) (ht : c ∈ t) : c ∈ u := by
  rw [filled_eq] at h
  exact h.mem hc ht

/-- Lines are filled one by one. -/
theorem exists_lines {ls : List Text} (h : Filled value? (join [.char '\n'] ls) u) :
    ∃ ms, List.Forall₂ (Filled value?) ls ms ∧ u = join [.char '\n'] ms := by
  rw [filled_eq] at h ⊢
  exact h.exists_lines

/-- No line break comes in. -/
theorem not_mem (hc : isLineBreak c = true) (h : Filled value? t u) (ht : c ∉ t) : c ∉ u := by
  rw [filled_eq] at h
  refine h.not_mem (fun name value hvalue hmem => ?_) ht
  rw [(hvalue.2 c hmem).1] at hc
  cases hc

end Filled

/-! ## Names that run on -/

/-- A name that runs on through word characters takes in those behind the shorter one. -/
theorem name?_isWord (h : name? isIdentifierPart t = some name) : ∃ rest, t = name ++ rest ∧
    name? isWord t = some (name ++ rest.takeWhile isWord) := by
  unfold name? at h
  split at h
  · cases h
  · next c r =>
    split at h
    · next hc =>
      cases h
      have hword : ∀ d ∈ r.takeWhile isIdentifierPart, isWord d = true := fun d hd =>
        isWord_of_isIdentifierPart (List.all_eq_true.1 List.all_takeWhile d hd)
      have hsplit := List.takeWhile_append_dropWhile (p := isIdentifierPart) (l := r)
      refine ⟨r.dropWhile isIdentifierPart, by rw [List.cons_append, hsplit], ?_⟩
      rw [name?, if_pos hc, List.cons_append, ← List.takeWhile_append_of_pos hword, hsplit]
    · cases h

/-- Where the pattern of a template has a placeholder, its name may run on through word characters
behind the name that is filled. -/
theorem exists_placeholder?_isWord
    (h : placeholder? isIdentifierPart (p ++ t) = some (name, p.length)) :
    ∃ q t' name', t = q ++ t' ∧ q.all isWord = true ∧
      placeholder? isWord (p ++ t) = some (name', (p ++ q).length) := by
  by_cases hhead : (p ++ t).head? = some (.char '{')
  · -- between braces, the name ends with the brace in either case
    obtain ⟨r, hr⟩ : ∃ r, p ++ t = .char '{' :: r := by
      cases hpt : p ++ t with
      | nil =>
        rw [hpt] at hhead
        cases hhead
      | cons c r =>
        rw [hpt] at hhead
        cases hhead
        exact ⟨r, rfl⟩
    rw [hr, placeholder?_braced] at h
    obtain ⟨name', hname, hfound⟩ := Option.bind_eq_some_iff.1 h
    split at hfound
    · next hclosing =>
      obtain ⟨rest, rfl, hword⟩ := name?_isWord hname
      rw [List.getElem?_append_right (Nat.le_refl _), Nat.sub_self] at hclosing
      obtain ⟨more, rfl⟩ : ∃ more, rest = .char '}' :: more := by
        cases rest with
        | nil => cases hclosing
        | cons c more =>
          cases hclosing
          exact ⟨more, rfl⟩
      rw [List.takeWhile_cons_of_neg (by decide), List.append_nil] at hword
      refine ⟨[], t, name', rfl, rfl, ?_⟩
      rw [hr, placeholder?_braced, hword, Option.bind_some, if_pos (by simp), List.append_nil]
      rw [Option.some.injEq, Prod.mk.injEq] at hfound ⊢
      exact ⟨rfl, hfound.2⟩
    · cases hfound
  · rw [placeholder?_bare hhead] at h ⊢
    obtain ⟨name', hname, heq⟩ := Option.map_eq_some_iff.1 h
    obtain ⟨rest, hrest, hword⟩ := name?_isWord hname
    obtain ⟨rfl, hlength⟩ := Prod.mk.inj heq
    obtain ⟨rfl, rfl⟩ := List.append_inj hrest hlength.symm
    refine ⟨t.takeWhile isWord, t.dropWhile isWord, p ++ t.takeWhile isWord,
      List.takeWhile_append_dropWhile.symm, List.all_takeWhile, ?_⟩
    rw [hword]
    rfl

/-- A dollar sign behind another one starts no placeholder. -/
theorem placeholder?_dollar (part : CodePoint → Bool) (t : Text) :
    placeholder? part (.char '$' :: t) = none := by
  rw [placeholder?_bare (by simp)]
  rfl

theorem dollar_not_mem_of_isWord (hq : p.all isWord = true) : .char '$' ∉ p :=
  fun hmem => absurd (List.all_eq_true.1 hq _ hmem) (by decide)

theorem prefix_of_name? (h : name? isWord t = some name) :
    name <+: t ∧ ∀ c ∈ name, isWord c = true := by
  unfold name? at h
  split at h
  · cases h
  · next c r =>
    split at h
    · next hc =>
      cases h
      have hfirst := isWord_of_isIdentifierStart hc
      exact ⟨List.cons_prefix_cons.2 ⟨rfl, List.takeWhile_prefix _⟩,
        List.forall_mem_cons.2 ⟨hfirst, List.all_eq_true.1 List.all_takeWhile⟩⟩
    · cases h

/-- A placeholder is made of word characters and perhaps braces around them. -/
theorem isWord_of_mem_placeholder (h : placeholder? isWord (p ++ t) = some (name, p.length)) :
    ∀ c ∈ p, isWord c = true ∨ c = .char '{' ∨ c = .char '}' := by
  by_cases hhead : (p ++ t).head? = some (.char '{')
  · obtain ⟨r, hr⟩ := List.head?_eq_some_iff.1 hhead
    rw [hr, placeholder?_braced] at h
    obtain ⟨name', hname, hfound⟩ := Option.bind_eq_some_iff.1 h
    split at hfound
    · next hclosing =>
      obtain ⟨rfl, hlength⟩ := Prod.mk.inj (Option.some.inj hfound)
      obtain ⟨⟨rest, rfl⟩, hword⟩ := prefix_of_name? hname
      rw [List.getElem?_append_right (Nat.le_refl _), Nat.sub_self,
        ← List.head?_eq_getElem?] at hclosing
      obtain ⟨more, rfl⟩ := List.head?_eq_some_iff.1 hclosing
      have hwhole : p ++ t = .char '{' :: (name' ++ [.char '}']) ++ more := by
        rw [hr]
        simp
      have hsize : p.length = (.char '{' :: (name' ++ [.char '}'])).length := by
        rw [← hlength]
        simp
      have hp := (List.append_inj hwhole hsize).1
      intro c hc
      rw [hp, List.mem_cons, List.mem_append, List.mem_singleton] at hc
      rcases hc with rfl | hc | rfl
      · exact .inr (.inl rfl)
      · exact .inl (hword c hc)
      · exact .inr (.inr rfl)
    · cases hfound
  · rw [placeholder?_bare hhead] at h
    obtain ⟨name', hname, heq⟩ := Option.map_eq_some_iff.1 h
    obtain ⟨⟨rest, hrest⟩, hword⟩ := prefix_of_name? hname
    obtain ⟨rfl, hlength⟩ := Prod.mk.inj heq
    obtain rfl := (List.append_inj hrest hlength).1
    exact fun c hc => .inl (hword c hc)

/-- What a placeholder takes is not nothing, and no dollar sign or quote is in it. -/
theorem isValueChar_placeholder (h : placeholder? isWord (p ++ t) = some (name, p.length)) :
    .char '$' ∉ p ∧ p.all Declaration.isValueChar = true ∧ p ≠ [] := by
  have hwords := isWord_of_mem_placeholder h
  refine ⟨fun hmem => ?_, List.all_eq_true.2 fun c hc => ?_, ?_⟩
  · have hdollar := hwords _ hmem
    revert hdollar
    decide
  · rcases hwords c hc with hword | rfl | rfl
    · exact Declaration.isValueChar_of_isWord hword
    · rfl
    · rfl
  · rintro rfl
    exact Nat.lt_irrefl 0 (size_pos h)

/-! ## Escapes -/

/-- Two dollar signs stand only where what follows reads as the name of a placeholder. -/
def NamesEscapes (t : Text) : Prop :=
  ∀ u s, t = u ++ .char '$' :: .char '$' :: s → (placeholder? isWord s).isSome = true

theorem namesEscapes_cons : NamesEscapes (c :: t) ↔
    (∀ s, c = .char '$' → t = .char '$' :: s → (placeholder? isWord s).isSome = true) ∧
    NamesEscapes t := by
  constructor
  · intro h
    refine ⟨?_, fun u s hu => h (c :: u) s (by rw [hu]; rfl)⟩
    rintro s rfl rfl
    exact h [] s rfl
  · rintro ⟨hfirst, hrest⟩ u s hu
    cases u with
    | nil =>
      obtain ⟨rfl, rfl⟩ := List.cons.inj hu
      exact hfirst s rfl rfl
    | cons d u =>
      obtain ⟨-, rfl⟩ := List.cons.inj hu
      exact hrest u s rfl

/-- Whether a text does not start with two dollar signs, or has a name behind them. -/
def startsNamed : Text → Bool
  | .char '$' :: .char '$' :: s => (placeholder? isWord s).isSome
  | _ => true

theorem namesEscapes_iff : NamesEscapes t ↔ ∀ s ∈ t.tails, startsNamed s = true := by
  constructor
  · intro h s hs
    obtain ⟨front, rfl⟩ := (List.mem_tails _ _).1 hs
    unfold startsNamed
    split
    · next s => exact h front s rfl
    · rfl
  · rintro h u s rfl
    exact h _ ((List.mem_tails _ _).2 (List.suffix_append _ _))

instance (t : Text) : Decidable (NamesEscapes t) :=
  decidable_of_iff _ namesEscapes_iff.symm

theorem namesEscapes_append (hp : .char '$' ∉ p) : NamesEscapes (p ++ t) ↔ NamesEscapes t := by
  induction p with
  | nil => rfl
  | cons c p ih =>
    rw [List.mem_cons, not_or] at hp
    rw [List.cons_append, namesEscapes_cons, ih hp.2]
    exact and_iff_right fun s hc => absurd hc.symm hp.1

/-- A placeholder holds no two dollar signs. -/
theorem namesEscapes_placeholder (h : placeholder? isWord (p ++ t) = some (name, p.length)) :
    NamesEscapes (.char '$' :: (p ++ t)) ↔ NamesEscapes t := by
  obtain ⟨hdollar, -, hne⟩ := isValueChar_placeholder h
  rw [namesEscapes_cons, namesEscapes_append hdollar]
  refine and_iff_right fun s _ hs => ?_
  obtain ⟨c, p, rfl⟩ := List.exists_cons_of_ne_nil hne
  obtain ⟨rfl, -⟩ := List.cons.inj hs
  exact absurd List.mem_cons_self hdollar

/-! ## Rendered text is refilled text -/

/-- Rendered text, cut as a pattern cuts it: a placeholder takes with it the word characters behind
its name, and two dollar signs before a name are a character and a placeholder. -/
inductive Aligned (escapes : Prop) (P : Text → Text → Prop) : Text → Text → Prop
  | nil : Aligned escapes P [] []
  | char {c : CodePoint} {t u : Text} (hc : c ≠ .char '$') (h : Aligned escapes P t u) :
      Aligned escapes P (c :: t) (c :: u)
  | nameless {t u : Text} (hescapes : escapes) (hnone : placeholder? isWord t = none)
      (h : Aligned escapes P t u) : Aligned escapes P (.char '$' :: .char '$' :: t) (.char '$' :: u)
  | named {p name t u : Text} (hescapes : escapes)
      (hp : placeholder? isWord (p ++ t) = some (name, p.length)) (h : Aligned escapes P t u) :
      Aligned escapes P (.char '$' :: .char '$' :: (p ++ t)) (.char '$' :: (p ++ u))
  | placeholder {p q name name' value t u : Text}
      (hp : placeholder? isWord (p ++ t) = some (name', p.length)) (hvalue : P name value)
      (hq : q.all isWord = true) (h : Aligned escapes P t u) :
      Aligned escapes P (.char '$' :: (p ++ t)) (value ++ (q ++ u))

theorem Rendered.aligned (h : Rendered escapes P t u) : Aligned escapes P t u := by
  -- by induction on the length, as the name of a placeholder may run on into what is rendered next
  induction hlength : t.length using Nat.strongRecOn generalizing t u with
  | ind n ih =>
    cases h with
    | nil => exact .nil
    | @char c t u hc h =>
      rw [List.length_cons] at hlength
      exact .char hc (ih t.length (by omega) h rfl)
    | @escape t u hescapes h =>
      rw [List.length_cons, List.length_cons] at hlength
      cases hp : placeholder? isWord t with
      | none => exact .nameless hescapes hp (ih t.length (by omega) h rfl)
      | some found =>
        obtain ⟨name, size⟩ := found
        obtain ⟨p, t, rfl, rfl⟩ := exists_of_placeholder? hp
        obtain ⟨hdollar, -⟩ := isValueChar_placeholder hp
        obtain ⟨u, rfl, hu⟩ := h.of_append hdollar
        rw [List.length_append] at hlength
        exact .named hescapes hp (ih t.length (by omega) hu rfl)
    | @placeholder p name value t u hp hvalue h =>
      obtain ⟨q, t, name', rfl, hq, hword⟩ := exists_placeholder?_isWord hp
      obtain ⟨u, rfl, hu⟩ := h.of_append (dollar_not_mem_of_isWord hq)
      rw [List.length_cons, List.length_append, List.length_append] at hlength
      rw [← List.append_assoc] at hword ⊢
      exact .placeholder hword hvalue hq (ih t.length (by omega) hu rfl)

/-- **Rendered text is refilled text** if two dollar signs stand before names only. -/
theorem Aligned.refilled (hP : ∀ name value, P name value → IsPlain value)
    (h : Aligned escapes P t u) (hnames : escapes → NamesEscapes t) : Refilled t u := by
  induction h with
  | nil => exact .nil
  | char hc _ ih =>
    refine .char (fun heq => absurd heq hc) (ih fun hescapes => ?_)
    exact (namesEscapes_cons.1 (hnames hescapes)).2
  | @nameless t u hescapes hnone _ _ =>
    have hsome := hnames hescapes [] t rfl
    rw [hnone] at hsome
    cases hsome
  | named hescapes hp _ ih =>
    obtain ⟨-, hvalue, -⟩ := isValueChar_placeholder hp
    have hrest := (namesEscapes_placeholder hp).1 (namesEscapes_cons.1 (hnames hescapes)).2
    exact .char (fun _ => placeholder?_dollar _ _) (.placeholder hp hvalue (ih fun _ => hrest))
  | @placeholder p q _ _ value t u hp hvalue hq _ ih =>
    -- the value and the rest of the name stand where the pattern leaves a gap
    have hgap : (value ++ q).all Declaration.isValueChar = true := by
      rw [List.all_append, isValueChar_of_isPlain (hP _ _ hvalue), Bool.true_and,
        List.all_eq_true]
      exact fun d hd => Declaration.isValueChar_of_isWord (List.all_eq_true.1 hq d hd)
    rw [← List.append_assoc]
    refine .placeholder hp hgap (ih fun hescapes => ?_)
    exact (namesEscapes_placeholder hp).1 (hnames hescapes)

end Template

namespace Declaration

open Text Template

variable {value? : Text → Option Text} {escapes : Prop} {P : Text → Text → Prop}
  {line m u : Text}

/-- What ends a declaration after its quote is indentation and perhaps a parenthesis. -/
theorem exists_of_atEnd {s : Text} (hfeed : .char '\n' ∉ s)
    (h : atEnd (dropIndent (dropOne (.char ')') (dropIndent s))) = true) :
    ∃ a b, (s = a ++ .char ')' :: b ∨ s = b) ∧ b.all isIndent = true := by
  have hend : ∀ r : Text, .char '\n' ∉ r → atEnd (dropIndent r) = true → r.all isIndent = true := by
    intro r hr h
    have hdrop : dropIndent r = [] := by
      rcases Bool.or_eq_true_iff.1 h with h | h
      · exact eq_of_beq h
      · have hmem : .char '\n' ∈ dropIndent r := by
          rw [eq_of_beq h]
          exact List.mem_singleton_self _
        exact absurd ((List.dropWhile_sublist _).subset hmem) hr
    exact List.all_eq_true.2 (List.dropWhile_eq_nil_iff.1 hdrop)
  have hsplit := List.takeWhile_append_dropWhile (p := isIndent) (l := s)
  cases hdrop : dropIndent s with
  | nil => exact ⟨[], s, .inr rfl, List.all_eq_true.2 (List.dropWhile_eq_nil_iff.1 hdrop)⟩
  | cons c r =>
    have hrest : s.dropWhile isIndent = c :: r := hdrop
    rw [hrest] at hsplit
    have hcr : .char '\n' ∉ c :: r := fun hmem => hfeed (by
      rw [← hsplit]
      exact List.mem_append_right _ hmem)
    rw [hdrop, dropOne] at h
    split at h
    · next hc =>
      subst hc
      rw [List.mem_cons, not_or] at hcr
      exact ⟨s.takeWhile isIndent, r, .inl hsplit.symm, hend r hcr.2 h⟩
    · -- without a parenthesis there is nothing but indentation
      have hall := hend (c :: r) hcr h
      refine ⟨[], s, .inr rfl, ?_⟩
      rw [← hsplit, List.all_append, List.all_takeWhile, hall]
      rfl

theorem dropOne_suffix (c : CodePoint) (t : Text) : dropOne c t <:+ t := by
  cases t with
  | nil => exact List.suffix_refl _
  | cons d r =>
    rw [dropOne]
    split
    · exact List.suffix_cons d r
    · exact List.suffix_refl _

/-- The blanks at the end of a declaration line are indentation, behind its quote or parenthesis. -/
theorem exists_trimRight (h : isDeclaration line = true) (hfeed : .char '\n' ∉ line) :
    ∃ b, line = trimRight line ++ b ∧ b.all isIndent = true := by
  obtain ⟨front, c, b, rfl, hc, hb⟩ : ∃ front c b, line = front ++ [c] ++ b ∧
      isBlank c = false ∧ b.all isIndent = true := by
    unfold isDeclaration at h
    split at h
    · cases h
    · next c r hline =>
      have hvalue := (Bool.and_eq_true_iff.1 h).2
      -- the quoted value is at the end of the line
      obtain ⟨before, hbefore⟩ : dropIndent (dropOne (.char '(') (dropIndent
          (r.dropWhile fun d => isWord d || d == .char '.'))) <:+ line := by
        have hkeyword : r.dropWhile (fun d => isWord d || d == .char '.') <:+ line := by
          refine ((List.dropWhile_suffix _).trans (List.suffix_cons c r)).trans ?_
          rw [← hline]
          exact List.dropWhile_suffix _
        exact (((List.dropWhile_suffix _).trans (dropOne_suffix _ _)).trans
          (List.dropWhile_suffix _)).trans hkeyword
      unfold endsAfterValue at hvalue
      split at hvalue
      · cases hvalue
      · next quote value hquoted =>
        obtain ⟨hquote, hvalue⟩ := Bool.and_eq_true_iff.1 hvalue
        have hsplit := List.takeWhile_append_dropWhile (p := isValueChar) (l := value)
        split at hvalue
        · next d s hs =>
          obtain ⟨hd, hend⟩ := Bool.and_eq_true_iff.1 hvalue
          have hblank : isBlank d = false := by
            rw [eq_of_beq hd]
            rcases Bool.or_eq_true_iff.1 hquote with hquote | hquote
            · rw [eq_of_beq hquote]
              decide
            · rw [eq_of_beq hquote]
              decide
          rw [hquoted, ← hsplit, hs] at hbefore
          have hsfeed : .char '\n' ∉ s := fun hmem => hfeed (by rw [← hbefore]; simp [hmem])
          obtain ⟨a, b, rfl | rfl, hb⟩ := exists_of_atEnd hsfeed hend
          · refine ⟨before ++ quote :: (value.takeWhile isValueChar ++ d :: a), .char ')', b, ?_,
              by decide, hb⟩
            rw [← hbefore]
            simp
          · refine ⟨before ++ quote :: value.takeWhile isValueChar, d, s, ?_, hblank, hb⟩
            rw [← hbefore]
            simp
        · cases hvalue
  refine ⟨b, ?_, hb⟩
  rw [trimRight, dropRight_append _ (allBlank_of_isIndent hb)]
  intro d hd
  rw [List.getLast?_append] at hd
  cases hd
  exact hc

/-- What trimming takes off a declaration line is indentation. -/
theorem exists_trim_append (hline : isDeclaration line = true) (hfeed : .char '\n' ∉ line) :
    ∃ a b : Text, line = a ++ (trim line ++ b) ∧ a.all isIndent = true ∧ b.all isIndent = true := by
  obtain ⟨c, rest, hdrop, hc⟩ := exists_dropIndent hline
  have hsplit : line.takeWhile isIndent ++ c :: rest = line := by
    rw [← hdrop, dropIndent, List.takeWhile_append_dropWhile]
  have hrest : isDeclaration (c :: rest) = true := by
    unfold isDeclaration at hline ⊢
    rw [dropIndent_cons hc]
    rwa [hdrop] at hline
  obtain ⟨b, hb, hbindent⟩ := exists_trimRight hrest fun hmem => hfeed (by
    rw [← hsplit]
    exact List.mem_append_right _ hmem)
  exact ⟨_, b, by rw [trim_eq_trimRight hdrop hc, ← hb, hsplit], List.all_takeWhile, hbindent⟩

/-- A rendered declaration line is the trimmed one rendered, between indentation. -/
theorem exists_of_rendered (hline : isDeclaration line = true) (hfeed : .char '\n' ∉ line)
    (h : Rendered escapes P line m) : ∃ a w b : Text, m = a ++ (w ++ b) ∧ a.all isIndent = true ∧
      b.all isIndent = true ∧ Rendered escapes P (trim line) w := by
  obtain ⟨a, b, hsplit, ha, hb⟩ := exists_trim_append hline hfeed
  rw [hsplit] at h
  obtain ⟨v, rfl, hv⟩ := h.of_append (not_mem_of_isIndent (by decide) ha)
  obtain ⟨w, rfl, hw⟩ := hv.of_append_blanks (allBlank_of_isIndent hb)
  exact ⟨a, w, b, rfl, ha, hb, hw⟩

/-- A rendered declaration line still starts with its keyword. -/
theorem ne_nil_of_rendered (hline : isDeclaration line = true) (hfeed : .char '\n' ∉ line)
    (h : Rendered escapes P line m) : m ≠ [] := by
  obtain ⟨a, w, b, rfl, -, -, hw⟩ := exists_of_rendered hline hfeed h
  obtain ⟨c, r, htrim, hc⟩ := exists_trim hline
  rw [htrim] at hw
  have hne : w ≠ [] := by
    cases hw with
    | char => exact List.cons_ne_nil _ _
    | escape => cases hc
    | placeholder => cases hc
  simp [hne]

/-- **A rendered declaration line of a template fits its pattern**, if it has two dollar signs before
names only. -/
theorem fits_of_rendered (hline : isDeclaration line = true) (hfeed : .char '\n' ∉ line)
    (h : Rendered escapes P line m) (hP : ∀ name value, P name value → IsPlain value)
    (hnames : escapes → NamesEscapes (trim line)) : fits (patternOf line) m = true := by
  obtain ⟨a, w, b, rfl, ha, hb, hw⟩ := exists_of_rendered hline hfeed h
  rw [fits_iff hline]
  exact ⟨a, w, b, rfl, ha, hw.aligned.refilled hP hnames, hb⟩

/-- A declaration line of a template, filled, fits its pattern. -/
theorem fits_of_filled (hline : isDeclaration line = true) (hfeed : .char '\n' ∉ line)
    (h : Filled value? line u) : fits (patternOf line) u = true := by
  rw [filled_eq] at h
  exact fits_of_rendered hline hfeed h (fun _ _ hvalue => hvalue.2) False.elim

end Declaration

end Graft
