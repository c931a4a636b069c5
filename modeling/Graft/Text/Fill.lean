import Graft.Text.Basic

/-!
# Filled lines

Items are set in lines of a limited width, as many in each as fit, with a blank between two of them.
No item is lost or moved (`join_fill`), and only an item that is too long by itself makes a line too
long (`length_le_of_mem_fill`).
-/

namespace Graft

namespace Text

/-- The lines for some items, the first of them begun. -/
def fillAfter (width : Nat) (line : Text) : List Text → List Text
  | [] => [line]
  | item :: rest =>
    if line.length + 1 + item.length ≤ width then fillAfter width (line ++ .char ' ' :: item) rest
    else line :: fillAfter width item rest

/-- The lines for some items. -/
def fill (width : Nat) : List Text → List Text
  | [] => []
  | item :: rest => fillAfter width item rest

/-- A line that was begun is there. -/
theorem fillAfter_ne_nil (width : Nat) (line : Text) (items : List Text) :
    fillAfter width line items ≠ [] := by
  induction items generalizing line with
  | nil => simp [fillAfter]
  | cons item rest ih =>
    unfold fillAfter
    split
    · exact ih _
    · simp

/-- A text joined to others stands before them. -/
theorem join_cons_of_ne_nil (sep t : Text) {ts : List Text} (h : ts ≠ []) :
    join sep (t :: ts) = t ++ sep ++ join sep ts := by
  cases ts with
  | nil => exact absurd rfl h
  | cons u us => rfl

/-- The lines hold the text that was begun and the items after it. -/
theorem join_fillAfter (width : Nat) (line : Text) (items : List Text) :
    join [.char ' '] (fillAfter width line items) = join [.char ' '] (line :: items) := by
  induction items generalizing line with
  | nil => rfl
  | cons item rest ih =>
    rw [join_cons_of_ne_nil _ _ (List.cons_ne_nil item rest)]
    unfold fillAfter
    split
    · rw [ih]
      cases rest with
      | nil => simp [join]
      | cons u us => simp [join]
    · rw [join_cons_of_ne_nil _ _ (fillAfter_ne_nil _ _ _), ih]

/-- The lines hold the items in their order. -/
theorem join_fill (width : Nat) (items : List Text) :
    join [.char ' '] (fill width items) = join [.char ' '] items := by
  cases items with
  | nil => rfl
  | cons item rest => exact join_fillAfter width item rest

/-- A line fits, or it is what was begun, or an item. -/
theorem length_le_of_mem_fillAfter {width : Nat} {line l : Text} {items : List Text}
    (h : l ∈ fillAfter width line items) : l.length ≤ width ∨ l = line ∨ l ∈ items := by
  induction items generalizing line with
  | nil => simp_all [fillAfter]
  | cons item rest ih =>
    unfold fillAfter at h
    split at h
    · next hfit =>
      rcases ih h with hl | rfl | hl
      · exact .inl hl
      · left
        simp only [List.length_append, List.length_cons]
        omega
      · exact .inr (.inr (List.mem_cons_of_mem item hl))
    · rcases List.mem_cons.1 h with rfl | h
      · exact .inr (.inl rfl)
      · rcases ih h with hl | rfl | hl
        · exact .inl hl
        · exact .inr (.inr List.mem_cons_self)
        · exact .inr (.inr (List.mem_cons_of_mem item hl))

/-- A line fits, or it is a single item. -/
theorem length_le_of_mem_fill {width : Nat} {l : Text} {items : List Text}
    (h : l ∈ fill width items) : l.length ≤ width ∨ l ∈ items := by
  cases items with
  | nil => simp [fill] at h
  | cons item rest =>
    rcases length_le_of_mem_fillAfter h with hl | rfl | hl
    · exact .inl hl
    · exact .inr List.mem_cons_self
    · exact .inr (List.mem_cons_of_mem item hl)

end Text

end Graft
