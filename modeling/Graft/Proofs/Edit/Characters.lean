import Graft.Edit.Removal
import Graft.Proofs.Brace.Scan
import Graft.Proofs.Steps
import Graft.Proofs.Text.Blank

/-!
# The characters of edited texts

Two things are told of an edited text by its characters alone. None is foreign: apart from line
feeds and spaces, every character comes from the text or from a rendered fragment (`not_mem_insert`,
`not_mem_remove`), and so from a marker, from a template or from a version value
(`Foreign.not_mem_render`). And insertion changes only blanks and puts the
fragment between two parts of the text:

> `insert_eq_ok`: the characters that are no blanks are those before the place of the anchor, those
> of the fragment, and those behind the place.

Their number, `solid`, grows by those of the marker at least (`solid_insert`), so an insertion that
is made never leaves the text as it was.
-/

namespace Graft

/-! ## Foreign characters -/

section Foreign

variable {c : CodePoint} {t document rendered margin : Text} {f : Fragment} {versions : VersionSet}

namespace Text

theorem not_mem_dropRight (h : c ∉ t) (p : CodePoint → Bool) : c ∉ dropRight p t := by
  intro hmem
  rw [dropRight, List.mem_reverse] at hmem
  exact h (List.mem_reverse.1 ((List.dropWhile_sublist p).subset hmem))

/-- The lines of a text have only its characters. -/
theorem not_mem_of_mem_lines (h : c ∉ t) : ∀ line ∈ lines t, c ∉ line := by
  fun_induction lines t with
  | case1 => simp
  | case2 r ih =>
    intro line hline
    rcases List.mem_cons.1 hline with rfl | hline
    · simp
    · exact ih (fun hmem => h (List.mem_cons_of_mem _ (List.mem_cons_of_mem _ hmem))) line hline
  | case3 x r _ hbreak ih =>
    intro line hline
    rcases List.mem_cons.1 hline with rfl | hline
    · simp
    · exact ih (fun hmem => h (List.mem_cons_of_mem _ hmem)) line hline
  | case4 x r _ hbreak hnil ih =>
    intro line hline
    rw [List.mem_singleton.1 hline]
    intro hmem
    rw [List.mem_singleton.1 hmem] at h
    exact h List.mem_cons_self
  | case5 x r _ hbreak l ls hls ih =>
    rw [List.mem_cons, not_or] at h
    rw [hls] at ih
    intro line hline
    rcases List.mem_cons.1 hline with rfl | hline
    · rw [List.mem_cons, not_or]
      exact ⟨h.1, ih h.2 l List.mem_cons_self⟩
    · exact ih h.2 line (List.mem_cons_of_mem _ hline)

/-- Joined texts have only their characters and those that separate them. -/
theorem not_mem_join {sep : Text} (hsep : c ∉ sep) {ts : List Text} (h : ∀ t ∈ ts, c ∉ t) :
    c ∉ join sep ts := by
  intro hmem
  rcases mem_join hmem with hmem | ⟨t, ht, hmem⟩
  · exact hsep hmem
  · exact h t ht hmem

end Text

theorem Table.exists_mem_of_get? {α : Type} {key : Text} {value : α} {table : Table α}
    (h : table.get? key = some value) : ∃ e ∈ table, e.2 = value := by
  induction table with
  | nil => cases h
  | cons e rest ih =>
    unfold Table.get? at h
    split at h
    · exact ⟨e, List.mem_cons_self, Option.some.inj h⟩
    · obtain ⟨e', he', hv⟩ := ih h
      exact ⟨e', List.mem_cons_of_mem e he', hv⟩

/-- A filled template has only characters of the template and of the values. -/
theorem Template.not_mem_fillSkipping {value? : Text → Option Text}
    (hvalue : ∀ key value, value? key = some value → c ∉ value) {skip index : Nat} {result : Text}
    (ht : c ∉ t) (h : fillSkipping value? skip index t = .ok result) : c ∉ result := by
  induction t generalizing skip index result with
  | nil =>
    cases skip <;> cases h <;> exact List.not_mem_nil
  | cons x r ih =>
    rw [List.mem_cons, not_or] at ht
    cases skip with
    | succ skip => exact ih ht.2 h
    | zero =>
      unfold fillSkipping at h
      split at h
      · next hx =>
        rw [hx] at ht
        split at h
        · obtain ⟨rest, hrest, rfl⟩ := exists_of_map_eq_ok h
          rw [List.mem_cons, not_or]
          exact ⟨ht.1, ih ht.2 hrest⟩
        · split at h
          · cases h
          · split at h
            · cases h
            · next value hv =>
              obtain ⟨rest, hrest, rfl⟩ := exists_of_map_eq_ok h
              rw [List.mem_append, not_or]
              exact ⟨hvalue _ _ hv, ih ht.2 hrest⟩
      · obtain ⟨rest, hrest, rfl⟩ := exists_of_map_eq_ok h
        rw [List.mem_cons, not_or]
        exact ⟨ht.1, ih ht.2 hrest⟩

/-- A character that stands neither in a fragment nor in the values of a version set. -/
structure Foreign (c : CodePoint) (f : Fragment) (versions : VersionSet) : Prop where
  marker : c ∉ f.marker
  template : c ∉ f.template
  values : ∀ e ∈ versions.versions, c ∉ e.2

/-- A rendered fragment has only its own characters, those of the values, and line feeds. -/
theorem Foreign.not_mem_render (h : Foreign c f versions) (hc : c ≠ .char '\n')
    (hr : f.render versions = .ok rendered) : c ∉ rendered := by
  obtain ⟨body, hbody, rfl⟩ := exists_of_map_eq_ok hr
  obtain ⟨filled, hfilled, rfl⟩ := exists_of_map_eq_ok hbody
  have hin : c ∉ filled := by
    unfold Fragment.fill at hfilled
    split at hfilled
    · next t ht =>
      cases hfilled
      refine Template.not_mem_fillSkipping ?_ h.template ht
      intro key value hv
      obtain ⟨e, he, rfl⟩ := Table.exists_mem_of_get? hv
      exact h.values e he
    · cases hfilled
    · cases hfilled
  simp only [List.mem_append, List.mem_cons, not_or]
  refine ⟨h.marker, hc, ?_⟩
  apply Text.not_mem_dropRight
  intro hmem
  exact hin ((List.dropWhile_sublist _).subset hmem)

theorem not_mem_indent (hc : c ≠ .char '\n') (hm : c ∉ margin) (ht : c ∉ t) :
    c ∉ Insertion.indent margin t := by
  apply Text.not_mem_join
  · simpa using hc
  · intro line hline
    obtain ⟨l, hl, rfl⟩ := List.mem_map.1 hline
    split
    · exact List.not_mem_nil
    · rw [List.mem_append, not_or]
      exact ⟨hm, Text.not_mem_of_mem_lines ht l hl⟩

theorem not_mem_insertBelow (hc : c ≠ .char '\n') (hc' : c ≠ .char ' ') (hd : c ∉ document)
    (hr : c ∉ rendered) (brace : Nat) : c ∉ insertBelow document rendered brace := by
  have hdrop : ∀ n, c ∉ document.drop n := fun n hmem => hd ((List.drop_sublist n _).subset hmem)
  have htake : ∀ n, c ∉ document.take n := fun n hmem => hd ((List.take_sublist n _).subset hmem)
  have hindentation : c ∉ Insertion.indentation := by
    rw [Insertion.indentation, String.toText_ofList]
    simp [hc']
  -- the lines are indented by the blanks before the header, and by one more step
  have hinner : c ∉ (Text.slice document (Text.lineStart document brace) brace).takeWhile
      Text.isBlank ++ Insertion.indentation := by
    rw [List.mem_append, not_or]
    refine ⟨?_, hindentation⟩
    intro hmem
    exact htake brace ((List.drop_sublist _ _).subset ((List.takeWhile_sublist _).subset hmem))
  have hblock := not_mem_indent hc hinner hr
  unfold insertBelow
  rw [List.mem_append, not_or]
  refine ⟨htake _, ?_⟩
  split
  · simp only [List.mem_append, List.mem_cons, List.not_mem_nil, or_false, not_or]
    refine ⟨⟨⟨⟨hc, hblock⟩, hc, hc⟩, ?_⟩, ?_⟩
    · rwa [List.mem_append, not_or] at hinner
    · intro hmem
      exact hdrop _ ((List.dropWhile_sublist _).subset hmem)
  · split
    · simp only [List.mem_append, List.mem_cons, not_or]
      exact ⟨⟨hc, hblock⟩, hc, hdrop _⟩
    · simp only [List.mem_append, List.mem_cons, not_or]
      exact ⟨⟨hc, hblock⟩, hdrop _⟩

/-- An insertion brings in no characters but those of the rendered fragment, line feeds and
spaces. -/
theorem not_mem_insert (h : ∀ rendered, f.render versions = .ok rendered → c ∉ rendered)
    (hc : c ≠ .char '\n') (hc' : c ≠ .char ' ') (hd : c ∉ document) {result : Text}
    (hi : insert document f versions = .ok result) : c ∉ result := by
  unfold insert at hi
  split at hi
  · cases hi
    exact hd
  · split at hi
    · unfold insertInside at hi
      dsimp only at hi
      split at hi
      · cases hi
      · split at hi
        · next rendered hr =>
          cases hi
          exact not_mem_insertBelow hc hc' hd (h rendered hr) _
        · cases hi
    · unfold insertAtEnd at hi
      dsimp only at hi
      split at hi
      · next rendered hr =>
        cases hi
        simp only [List.mem_append, List.mem_singleton, not_or]
        refine ⟨⟨⟨Text.not_mem_dropRight hd _, ?_⟩, h rendered hr⟩, hc⟩
        split
        · exact List.not_mem_nil
        · simp [hc]
      · cases hi

/-- A removal brings in no characters at all. -/
theorem not_mem_remove (hd : c ∉ document) {result : Text} (h : remove document f = .ok result) :
    c ∉ result := by
  obtain ⟨spans, -, rfl⟩ := exists_of_map_eq_ok h
  clear h
  induction spans.reverse generalizing document with
  | nil => exact hd
  | cons s ss ih =>
    apply ih
    show c ∉ document.take _ ++ document.drop _
    rw [List.mem_append, not_or]
    exact ⟨fun hmem => hd ((List.take_sublist _ _).subset hmem),
      fun hmem => hd ((List.drop_sublist _ _).subset hmem)⟩

end Foreign

/-! ## Characters that are no blanks -/

open Text

variable {margin document result : Text} {f : Fragment} {versions : VersionSet}

/-- Indenting lines changes only blanks. -/
theorem solids_indent (hmargin : allBlank margin = true) (t : Text) :
    solids (Insertion.indent margin t) = solids t := by
  rw [← solids_flatten_lines t, Insertion.indent, solids_join_lineFeed]
  induction lines t with
  | nil => rfl
  | cons l ls ih =>
    -- a blank line is emptied, and any other one gets the margin
    have hl : solids (if allBlank l then [] else margin ++ l) = solids l := by
      split
      · next hblank => exact (solids_eq_nil_iff.2 hblank).symm
      · rw [solids_append, solids_eq_nil_iff.2 hmargin, List.nil_append]
    rw [List.map_cons, List.flatten_cons, List.flatten_cons, solids_append, solids_append, ih, hl]

/-- The margin below a header is blank. -/
theorem allBlank_inner (header : Text) :
    allBlank (header.takeWhile isBlank ++ Insertion.indentation) = true := by
  rw [allBlank, List.all_append, List.all_takeWhile]
  decide

/-- Behind the brace of a header come the characters of the fragment and then all others. -/
theorem solids_insertBelow (document rendered : Text) (brace : Nat) :
    solids (insertBelow document rendered brace) = solids (document.take (brace + 1)) ++
      solids rendered ++ solids (document.drop (brace + 1)) := by
  have hinner := allBlank_inner (slice document (lineStart document brace) brace)
  have hblock := solids_indent hinner rendered
  unfold insertBelow
  rw [solids_append, List.append_assoc (solids _) (solids rendered), List.append_cancel_left_eq]
  split
  · -- what stood on the line of the header loses its indentation only
    rw [solids_append, solids_append, solids_append, solids_lineFeed, hblock,
      solids_eq_nil_iff.2 hinner, solids_lineFeed, solids_lineFeed,
      solids_dropWhile fun _ => isBlank_of_isIndent]
    simp
  · split
    · rw [solids_append, solids_lineFeed, hblock, solids_lineFeed]
    · rw [solids_append, solids_lineFeed, hblock]

/-- The end of a text is moved to the last character that is no blank. -/
theorem solids_insertAtEnd (h : insertAtEnd document f versions = .ok result) :
    ∃ rendered, f.render versions = .ok rendered ∧
      solids result = solids (trimRight document) ++ solids rendered := by
  unfold insertAtEnd at h
  dsimp only at h
  split at h
  · next rendered hr =>
    cases h
    refine ⟨rendered, hr, ?_⟩
    have hseparator : solids (if (trimRight document).isEmpty then []
        else [.char '\n', .char '\n']) = [] := by
      split
      · rfl
      · rfl
    rw [solids_append, solids_append, solids_append, hseparator, List.append_nil,
      solids_lineFeed, solids_nil, List.append_nil]
  · cases h

/-- Where the anchor of a fragment splits a text in two: behind the brace of the block that it
names, or else where only blanks follow. -/
def Anchor.Splits (anchor : Anchor) (before after : Text) : Prop :=
  if anchor.isBlock then
    ∃ brace, blockBrace? (before ++ after) (anchor.block.getD []) = some brace ∧
      before.length = brace + 1 ∧ before.getLast? = some (.char '{')
  else allBlank after = true

/-- A text that was split where an anchor says, and has the characters of something else between the
two parts. -/
def Anchor.Parts (anchor : Anchor) (document rendered result : Text) : Prop :=
  ∃ before after, document = before ++ after ∧ anchor.Splits before after ∧
    solids result = solids before ++ solids rendered ++ solids after

theorem parts_insertInside (hblock : f.anchor.isBlock = true)
    (h : insertInside document f versions = .ok result) :
    ∃ rendered, f.render versions = .ok rendered ∧ f.anchor.Parts document rendered result := by
  unfold insertInside at h
  dsimp only at h
  split at h
  · cases h
  · next brace hbrace =>
    split at h
    · next rendered hr =>
      cases h
      have hget := getElem?_of_mem_braces (mem_braces_of_blockBrace? hbrace)
      obtain ⟨hlt, -⟩ := List.getElem?_eq_some_iff.1 hget
      refine ⟨rendered, hr, document.take (brace + 1), document.drop (brace + 1),
        (List.take_append_drop _ _).symm, ?_, solids_insertBelow _ _ _⟩
      rw [Anchor.Splits, if_pos hblock, List.take_append_drop]
      refine ⟨brace, hbrace, ?_, ?_⟩
      · rw [List.length_take]
        omega
      · rw [List.getLast?_take, if_neg (by omega), Nat.add_sub_cancel, hget]
        rfl
    · cases h

theorem parts_insertAtEnd (hblock : f.anchor.isBlock = false)
    (h : insertAtEnd document f versions = .ok result) :
    ∃ rendered, f.render versions = .ok rendered ∧ f.anchor.Parts document rendered result := by
  obtain ⟨rendered, hr, hsolids⟩ := solids_insertAtEnd h
  obtain ⟨after, hsplit, hafter⟩ := exists_trimRight_append document
  refine ⟨rendered, hr, trimRight document, after, hsplit, ?_, ?_⟩
  · rw [Anchor.Splits, if_neg (by simp [hblock])]
    exact hafter
  · rw [hsolids, solids_eq_nil_iff.2 hafter, List.append_nil]

/-- What inserting a fragment comes to: the text as it was, if the marker is in it, or else the
characters of the fragment between two parts of the text. -/
theorem insert_eq_ok (h : insert document f versions = .ok result) :
    (document.contains f.marker = true ∧ result = document) ∨
      (document.contains f.marker = false ∧ ∃ rendered, f.render versions = .ok rendered ∧
        f.anchor.Parts document rendered result) := by
  unfold insert at h
  split at h
  · next hcontains =>
    cases h
    exact .inl ⟨hcontains, rfl⟩
  · next hnot =>
    refine .inr ⟨Bool.not_eq_true _ ▸ hnot, ?_⟩
    split at h
    · next hblock => exact parts_insertInside hblock h
    · next hblock => exact parts_insertAtEnd (Bool.not_eq_true _ ▸ hblock) h

/-- How many characters of a text are no blanks. -/
def Text.solid (t : Text) : Nat :=
  t.countP (!isBlank ·)

theorem Text.solid_eq_length (t : Text) : solid t = (solids t).length :=
  List.countP_eq_length_filter

theorem Text.solid_eq_zero_iff (t : Text) : solid t = 0 ↔ allBlank t = true := by
  rw [solid_eq_length, List.length_eq_zero_iff, solids_eq_nil_iff]

/-- Inserting a fragment takes away nothing but blanks. If its marker is not in the document, the
characters of the marker come in. -/
theorem solid_insert (h : insert document f versions = .ok result) :
    solid document ≤ solid result ∧
      (document.contains f.marker = false → solid document + solid f.marker ≤ solid result) := by
  rcases insert_eq_ok h with ⟨hcontains, rfl⟩ | ⟨-, rendered, hr, before, after, rfl, -, hsolids⟩
  · refine ⟨Nat.le_refl _, ?_⟩
    intro hnot
    rw [hcontains] at hnot
    cases hnot
  · -- the marker is the first line of what is put in
    obtain ⟨body, -, rfl⟩ := exists_of_map_eq_ok hr
    have hlength := congrArg List.length hsolids
    simp only [solids_append, List.length_append] at hlength
    simp only [solid_eq_length, solids_append, List.length_append]
    omega

end Graft
