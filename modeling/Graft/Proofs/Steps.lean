/-!
# Steps that succeed

What is done in steps succeeds only if each step does. The lemmas here take a success apart: into
one step and the next (`exists_of_bind_eq_ok`), into a step and what is made of its result
(`exists_of_map_eq_ok`), and into the steps that are taken for the elements of a list
(`exists_mem_of_mapM_eq_ok`), whose results come in the order of the list (`map_of_mapM_eq_ok`).
-/

namespace Graft

variable {ε α β γ : Type}

theorem exists_of_bind_eq_ok {x : Except ε α} {next : α → Except ε β} {b : β}
    (h : (x >>= next) = .ok b) : ∃ a, x = .ok a ∧ next a = .ok b := by
  cases x with
  | error e => cases h
  | ok a => exact ⟨a, rfl, h⟩

theorem exists_of_map_eq_ok {x : Except ε α} {g : α → β} {b : β} (h : g <$> x = .ok b) :
    ∃ a, x = .ok a ∧ g a = b := by
  cases x with
  | error e => cases h
  | ok a =>
    cases h
    exact ⟨a, rfl, rfl⟩

/-- A success is told by its result. -/
theorem eq_ok_of_toOption {x : Except ε α} {a : α} (h : x.toOption = some a) : x = .ok a := by
  cases x with
  | error e => cases h
  | ok b =>
    cases h
    rfl

theorem exists_of_toOption_eq_none {x : Except ε α} (h : x.toOption = none) :
    ∃ e, x = .error e := by
  cases x with
  | error e => exact ⟨e, rfl⟩
  | ok a => cases h

/-- What is made of a success is made of its result. -/
theorem toOption_map (g : α → β) (x : Except ε α) : (g <$> x).toOption = x.toOption.map g := by
  cases x with
  | error e => rfl
  | ok a => rfl

section Traversal

variable {f : α → Except ε β} {as : List α} {bs : List β}

/-- A step that succeeded for a list succeeded for its head and for the rest. -/
theorem exists_of_mapM_cons_eq_ok {a : α} (h : (a :: as).mapM f = .ok bs) :
    ∃ b rest, f a = .ok b ∧ as.mapM f = .ok rest ∧ bs = b :: rest := by
  rw [List.mapM_cons] at h
  obtain ⟨b, hb, h⟩ := exists_of_bind_eq_ok h
  obtain ⟨rest, hrest, h⟩ := exists_of_bind_eq_ok h
  cases h
  exact ⟨b, rest, hb, hrest, rfl⟩

theorem exists_mem_of_mapM_eq_ok (h : as.mapM f = .ok bs) {a : α} (ha : a ∈ as) :
    ∃ b ∈ bs, f a = .ok b := by
  induction as generalizing bs with
  | nil => cases ha
  | cons first as ih =>
    obtain ⟨b, rest, hb, hrest, rfl⟩ := exists_of_mapM_cons_eq_ok h
    rcases List.mem_cons.1 ha with rfl | ha
    · exact ⟨b, List.mem_cons_self, hb⟩
    · obtain ⟨b', hmem, hb'⟩ := ih hrest ha
      exact ⟨b', List.mem_cons_of_mem b hmem, hb'⟩

/-- What is told of an element alike before and after is told of the list. -/
theorem map_of_mapM_eq_ok {g : α → γ} {g' : β → γ} (hg : ∀ {a b}, f a = .ok b → g' b = g a)
    (h : as.mapM f = .ok bs) : bs.map g' = as.map g := by
  induction as generalizing bs with
  | nil =>
    cases h
    rfl
  | cons a as ih =>
    obtain ⟨b, rest, hb, hrest, rfl⟩ := exists_of_mapM_cons_eq_ok h
    rw [List.map_cons, List.map_cons, hg hb, ih hrest]

theorem exists_mapM_eq_ok (h : ∀ a ∈ as, ∃ b, f a = .ok b) : ∃ bs, as.mapM f = .ok bs := by
  induction as with
  | nil => exact ⟨[], rfl⟩
  | cons a as ih =>
    obtain ⟨b, hb⟩ := h a List.mem_cons_self
    obtain ⟨rest, hrest⟩ := ih fun a' ha' => h a' (List.mem_cons_of_mem a ha')
    refine ⟨b :: rest, ?_⟩
    rw [List.mapM_cons, hb, hrest]
    rfl

end Traversal

end Graft
