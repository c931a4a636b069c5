import Graft.Proofs.Json.Scalars

/-!
# Values that are read back

`Json.indented` lays a value out over several lines, and `Json.read` finds it there again, if the
value has no number with a fraction, no number of more digits than a numeral may have, no key twice
in an object, and no more arrays and objects inside one another than are read (`IsWritable`).

The reader takes a value up to where it ends, so the statement about a part of a text is about the
part in front of any rest (`ReadsBack`); it goes from the items of an array to the array, and from
the values of an object to the object, along `IsWritable`. Steps are counted against the length of
what is read, two for a character.

> `read_indented`: a value that is laid out is read back, with white space behind it or without.
-/

namespace Graft

/-! ## Tables without a key twice -/

namespace Table

variable {α : Type} {key : Text} {value : α} {table more : Table α}

theorem put_of_not_mem (h : key ∉ keys table) : put key value table = table ++ [(key, value)] := by
  induction table with
  | nil => rfl
  | cons e rest ih =>
    obtain ⟨hne, hrest⟩ := not_or.1 (List.mem_cons.not.1 h)
    rw [put, if_neg (Ne.symm hne), ih hrest]
    rfl

theorem putAll_of_nodup (h : (keys (table ++ more)).Nodup) : putAll table more = table ++ more := by
  induction more generalizing table with
  | nil => exact (List.append_nil table).symm
  | cons e rest ih =>
    obtain ⟨key, value⟩ := e
    rw [← List.singleton_append, ← List.append_assoc] at h ⊢
    have hkey : key ∉ keys table := by
      have hfront : (keys (table ++ [(key, value)])).Nodup :=
        h.sublist ((List.sublist_append_left _ rest).map _)
      rw [keys, List.map_append, List.nodup_append] at hfront
      exact fun hmem => hfront.2.2 key hmem key List.mem_cons_self rfl
    show putAll (put key value table) rest = _
    rw [put_of_not_mem hkey]
    exact ih h

/-- Entries without a key twice are kept as they are. -/
theorem ofEntries_of_nodup (h : (keys table).Nodup) : ofEntries table = table :=
  putAll_of_nodup h

end Table

namespace Json

variable {t rest : Text} {v : Json} {vs : List Json} {fs : List (Text × Json)} {depth level : Nat}

/-! ## White space -/

theorem skipSpace_newLine (level : Nat) (t : Text) :
    skipSpace (newLine level ++ t) = skipSpace t := by
  refine List.dropWhile_append_of_pos fun c hc => ?_
  rcases List.mem_cons.1 hc with rfl | hc
  · rfl
  · rw [List.eq_of_mem_replicate hc]
    rfl

theorem skipSpace_colon (t : Text) :
    skipSpace (": ".toText ++ t) = .char ':' :: .char ' ' :: t := rfl

/-- The first character of a text is that of a value or of a field. -/
def Opens (t : Text) : Prop :=
  ∃ c r, t = c :: r ∧ isSpace c = false ∧ c ≠ .char ']' ∧ c ≠ .char '\x7d'

theorem Opens.append (h : Opens t) (rest : Text) : Opens (t ++ rest) := by
  obtain ⟨c, r, rfl, hc⟩ := h
  exact ⟨c, r ++ rest, rfl, hc⟩

theorem Opens.skipSpace (h : Opens t) : skipSpace t = t := by
  obtain ⟨c, r, rfl, hc, -⟩ := h
  exact List.dropWhile_cons_of_neg (by simp [hc])

theorem opens_writeString (t : Text) : Opens (writeString t) :=
  ⟨_, _, rfl, by decide⟩

theorem opens_join {sep : Text} {t : Text} {ts : List Text} (h : Opens t) :
    Opens (Text.join sep (t :: ts)) := by
  cases ts with
  | nil => exact h
  | cons u us => exact (h.append sep).append _

/-! ## What is read back -/

/-- A value of at most `depth` arrays and objects inside one another that is written so as to be
read back. -/
inductive IsWritable : Nat → Json → Prop where
  | null {depth : Nat} : IsWritable depth .null
  | bool {depth : Nat} (b : Bool) : IsWritable depth (.bool b)
  | int {depth : Nat} {i : Int} (h : IsShort i) : IsWritable depth (.int i)
  | str {depth : Nat} (t : Text) : IsWritable depth (.str t)
  | arr {depth : Nat} {vs : List Json} (h : ∀ v ∈ vs, IsWritable depth v) :
      IsWritable (depth + 1) (.arr vs)
  | obj {depth : Nat} {fs : List (Text × Json)} (hkeys : (Table.keys fs).Nodup)
      (h : ∀ e ∈ fs, IsWritable depth e.2) : IsWritable (depth + 1) (.obj fs)

/-- Wherever a value is written, it is read from there, and not more than it. -/
structure ReadsBack (depth : Nat) (v : Json) : Prop where
  opens : ∀ level, Opens (writeAt level v)
  value : ∀ {level fuel : Nat} {rest : Text}, Stops rest → 2 * (writeAt level v).length ≤ fuel →
    readValue fuel depth (writeAt level v ++ rest) = .ok (v, rest)

theorem stops_newLine (level : Nat) (t : Text) : Stops (newLine level ++ t) :=
  stops_cons (.inr rfl)

theorem skipSpace_newLine_opens (level : Nat) (h : Opens t) : skipSpace (newLine level ++ t) = t :=
  (skipSpace_newLine level t).trans h.skipSpace

/-! ## Arrays -/

/-- The items of an array with what stands between them. -/
def itemsText (level : Nat) (vs : List Json) : Text :=
  Text.join (.char ',' :: newLine level) (writeItemsAt level vs)

theorem itemsText_cons_cons (level : Nat) (v w : Json) (vs : List Json) (rest : Text) :
    itemsText level (v :: w :: vs) ++ rest =
      writeAt level v ++ .char ',' :: (newLine level ++ (itemsText level (w :: vs) ++ rest)) := by
  simp [itemsText, writeItemsAt, Text.join]

theorem opens_itemsText (level : Nat) (h : ∀ v ∈ vs, ReadsBack depth v) (hne : vs ≠ [])
    (rest : Text) : Opens (itemsText level vs ++ rest) := by
  refine Opens.append ?_ rest
  cases vs with
  | nil => exact absurd rfl hne
  | cons v vs => exact opens_join ((h v List.mem_cons_self).opens level)

/-- What is done behind an item hangs on the next character that is not white space. -/
theorem readItems_item (hv : ReadsBack depth v) {fuel : Nat} (hrest : Stops rest)
    (hfuel : 2 * (writeAt level v).length ≤ fuel) :
    readItems (fuel + 1) depth (writeAt level v ++ rest) =
      match skipSpace rest with
      | .char ']' :: s => .ok ([v], s)
      | .char ',' :: r => (readItems fuel depth (skipSpace r)).map fun (vs, s) => (v :: vs, s)
      | _ => .error .malformed := by
  rw [readItems, hv.value hrest hfuel]
  rfl

theorem readItems_itemsText (h : ∀ v ∈ vs, ReadsBack depth v) (hne : vs ≠ []) {fuel outer : Nat}
    (hfuel : 2 * (itemsText level vs).length + 1 ≤ fuel) :
    readItems fuel depth (itemsText level vs ++ (newLine outer ++ .char ']' :: rest)) =
      .ok (vs, rest) := by
  induction vs generalizing fuel with
  | nil => exact absurd rfl hne
  | cons v vs ih =>
    obtain ⟨fuel, rfl⟩ : ∃ k, fuel = k + 1 := ⟨fuel - 1, by omega⟩
    have hv := h v List.mem_cons_self
    cases vs with
    | nil =>
      change 2 * (writeAt level v).length + 1 ≤ fuel + 1 at hfuel
      change readItems (fuel + 1) depth (writeAt level v ++ _) = _
      rw [readItems_item hv (stops_newLine _ _) (by omega), skipSpace_newLine]
      rfl
    | cons w ws =>
      have hws : ∀ u ∈ w :: ws, ReadsBack depth u := fun u hu => h u (List.mem_cons_of_mem v hu)
      have hsize := congrArg List.length (itemsText_cons_cons level v w ws [])
      simp only [List.append_nil, List.length_append, List.length_cons] at hsize
      have hopens := opens_itemsText level hws (by simp) (newLine outer ++ .char ']' :: rest)
      have hrest := ih hws (by simp) (show 2 * _ + 1 ≤ fuel by omega)
      rw [itemsText_cons_cons, readItems_item hv (stops_cons (.inl rfl)) (by omega)]
      show (readItems fuel depth (skipSpace (newLine level ++ _))).map _ = _
      rw [skipSpace_newLine_opens level hopens, hrest]
      rfl

theorem writeAt_arr (level : Nat) (hne : vs ≠ []) (rest : Text) :
    writeAt level (.arr vs) ++ rest =
      .char '[' :: (newLine (level + 1) ++
        (itemsText (level + 1) vs ++ (newLine level ++ .char ']' :: rest))) := by
  cases vs with
  | nil => exact absurd rfl hne
  | cons v vs => simp [writeAt, writeItemsAt, enclose, itemsText]

theorem ReadsBack.arr (h : ∀ v ∈ vs, ReadsBack depth v) : ReadsBack (depth + 1) (.arr vs) := by
  cases hvs : vs with
  | nil =>
    refine ⟨fun level => ⟨.char '[', [.char ']'], rfl, by decide⟩,
      fun {level fuel rest} _ hfuel => ?_⟩
    change 4 ≤ fuel at hfuel
    obtain ⟨fuel, rfl⟩ : ∃ k, fuel = k + 1 := ⟨fuel - 1, by omega⟩
    rfl
  | cons v ws =>
    have hne : vs ≠ [] := by simp [hvs]
    rw [← hvs]
    refine ⟨fun level => ?_, fun {level fuel rest} _ hfuel => ?_⟩
    · have htext := writeAt_arr level hne []
      rw [List.append_nil] at htext
      exact ⟨_, _, htext, by decide⟩
    · have hsize := congrArg List.length (writeAt_arr level hne [])
      simp only [List.append_nil, List.length_append, List.length_cons] at hsize
      obtain ⟨fuel, rfl⟩ : ∃ k, fuel = k + 1 := ⟨fuel - 1, by omega⟩
      have hopens := opens_itemsText (level + 1) h hne (newLine level ++ .char ']' :: rest)
      have hitems : readItems fuel depth
          (itemsText (level + 1) vs ++ (newLine level ++ .char ']' :: rest)) = .ok (vs, rest) :=
        readItems_itemsText h hne (by omega)
      rw [writeAt_arr level hne, readValue]
      dsimp only
      rw [skipSpace_newLine_opens (level + 1) hopens]
      -- what stands behind the bracket does not close the array
      obtain ⟨c, r, hcons, -, hc, -⟩ := hopens
      rw [hcons] at hitems ⊢
      split
      · next he =>
        cases he
        exact absurd rfl hc
      · rw [hitems]
        rfl

/-! ## Objects -/

/-- The fields of an object with what stands between them. -/
def fieldsText (level : Nat) (fs : List (Text × Json)) : Text :=
  Text.join (.char ',' :: newLine level) (writeFieldsAt level fs)

/-- A field in front of the rest of an object. -/
def fieldText (level : Nat) (key : Text) (v : Json) (rest : Text) : Text :=
  .char '"' :: (key.flatMap writeChar ++ .char '"' :: (": ".toText ++ (writeAt level v ++ rest)))

theorem fieldsText_singleton (level : Nat) (key : Text) (v : Json) (rest : Text) :
    fieldsText level [(key, v)] ++ rest = fieldText level key v rest := by
  simp [fieldsText, fieldText, writeFieldsAt, Text.join, writeString]

theorem fieldsText_cons_cons (level : Nat) (key : Text) (v : Json) (e : Text × Json)
    (fs : List (Text × Json)) (rest : Text) :
    fieldsText level ((key, v) :: e :: fs) ++ rest =
      fieldText level key v
        (.char ',' :: (newLine level ++ (fieldsText level (e :: fs) ++ rest))) := by
  simp [fieldsText, fieldText, writeFieldsAt, Text.join, writeString]

theorem opens_fieldText (level : Nat) (key : Text) (v : Json) (rest : Text) :
    Opens (fieldText level key v rest) :=
  ⟨_, _, rfl, by decide⟩

theorem opens_fieldsText (level : Nat) (hne : fs ≠ []) (rest : Text) :
    Opens (fieldsText level fs ++ rest) := by
  match fs with
  | [] => exact absurd rfl hne
  | [(key, v)] =>
    rw [fieldsText_singleton]
    exact opens_fieldText level key v rest
  | (key, v) :: e :: fs =>
    rw [fieldsText_cons_cons]
    exact opens_fieldText level key v _

/-- What is done behind a field hangs on the next character that is not white space. -/
theorem readFields_fieldText {key : Text} (hv : ReadsBack depth v) {fuel : Nat}
    (hrest : Stops rest) (hfuel : 2 * (writeAt level v).length ≤ fuel) :
    readFields (fuel + 1) depth (fieldText level key v rest) =
      match skipSpace rest with
      | .char '\x7d' :: s => .ok ([(key, v)], s)
      | .char ',' :: r =>
        (readFields fuel depth (skipSpace r)).map fun (fs, s) => ((key, v) :: fs, s)
      | _ => .error .malformed := by
  have hspace : skipSpace (.char ' ' :: (writeAt level v ++ rest)) = writeAt level v ++ rest :=
    ((hv.opens level).append rest).skipSpace
  rw [fieldText, readFields, readQuoted_flatMap]
  simp only [bind, Except.bind]
  rw [skipSpace_colon]
  simp only [hspace, hv.value hrest hfuel]
  rfl

theorem readFields_fieldsText (h : ∀ e ∈ fs, ReadsBack depth e.2) (hne : fs ≠ [])
    {fuel outer : Nat} (hfuel : 2 * (fieldsText level fs).length + 1 ≤ fuel) :
    readFields fuel depth (fieldsText level fs ++ (newLine outer ++ .char '\x7d' :: rest)) =
      .ok (fs, rest) := by
  induction fs generalizing fuel with
  | nil => exact absurd rfl hne
  | cons e fs ih =>
    obtain ⟨key, v⟩ := e
    obtain ⟨fuel, rfl⟩ : ∃ k, fuel = k + 1 := ⟨fuel - 1, by omega⟩
    have hv : ReadsBack depth v := h (key, v) List.mem_cons_self
    cases fs with
    | nil =>
      have hsize := congrArg List.length (fieldsText_singleton level key v [])
      simp only [fieldText, List.append_nil, List.length_append, List.length_cons] at hsize
      rw [fieldsText_singleton, readFields_fieldText hv (stops_newLine _ _) (by omega),
        skipSpace_newLine]
      rfl
    | cons e fs =>
      have hfs : ∀ x ∈ e :: fs, ReadsBack depth x.2 := fun x hx => h x (List.mem_cons_of_mem _ hx)
      have hsize := congrArg List.length (fieldsText_cons_cons level key v e fs [])
      simp only [fieldText, List.append_nil, List.length_append, List.length_cons] at hsize
      have hopens := opens_fieldsText level (List.cons_ne_nil e fs)
        (newLine outer ++ .char '\x7d' :: rest)
      have hrest := ih hfs (by simp) (show 2 * _ + 1 ≤ fuel by omega)
      rw [fieldsText_cons_cons, readFields_fieldText hv (stops_cons (.inl rfl)) (by omega)]
      show (readFields fuel depth (skipSpace (newLine level ++ _))).map _ = _
      rw [skipSpace_newLine_opens level hopens, hrest]
      rfl

theorem writeAt_obj (level : Nat) (hne : fs ≠ []) (rest : Text) :
    writeAt level (.obj fs) ++ rest =
      .char '\x7b' :: (newLine (level + 1) ++
        (fieldsText (level + 1) fs ++ (newLine level ++ .char '\x7d' :: rest))) := by
  cases fs with
  | nil => exact absurd rfl hne
  | cons e fs => simp [writeAt, writeFieldsAt, enclose, fieldsText]

theorem ReadsBack.obj (hkeys : (Table.keys fs).Nodup) (h : ∀ e ∈ fs, ReadsBack depth e.2) :
    ReadsBack (depth + 1) (.obj fs) := by
  cases hfs : fs with
  | nil =>
    refine ⟨fun level => ⟨.char '\x7b', [.char '\x7d'], rfl, by decide⟩,
      fun {level fuel rest} _ hfuel => ?_⟩
    change 4 ≤ fuel at hfuel
    obtain ⟨fuel, rfl⟩ : ∃ k, fuel = k + 1 := ⟨fuel - 1, by omega⟩
    rfl
  | cons e es =>
    have hne : fs ≠ [] := by simp [hfs]
    rw [← hfs]
    refine ⟨fun level => ?_, fun {level fuel rest} _ hfuel => ?_⟩
    · have htext := writeAt_obj level hne []
      rw [List.append_nil] at htext
      exact ⟨_, _, htext, by decide⟩
    · have hsize := congrArg List.length (writeAt_obj level hne [])
      simp only [List.append_nil, List.length_append, List.length_cons] at hsize
      obtain ⟨fuel, rfl⟩ : ∃ k, fuel = k + 1 := ⟨fuel - 1, by omega⟩
      have hopens := opens_fieldsText (level + 1) hne (newLine level ++ .char '\x7d' :: rest)
      have hfields : readFields fuel depth
          (fieldsText (level + 1) fs ++ (newLine level ++ .char '\x7d' :: rest)) = .ok (fs, rest) :=
        readFields_fieldsText h hne (by omega)
      rw [writeAt_obj level hne, readValue]
      dsimp only
      rw [skipSpace_newLine_opens (level + 1) hopens]
      -- what stands behind the brace does not close the object
      obtain ⟨c, r, hcons, -, -, hc⟩ := hopens
      rw [hcons] at hfields ⊢
      split
      · next he =>
        cases he
        exact absurd rfl hc
      · rw [hfields]
        show Except.ok (Json.obj (Table.ofEntries fs), rest) = _
        rw [Table.ofEntries_of_nodup hkeys]

/-! ## Values -/

/-- A value that is neither a string nor in brackets is read as a number or a word. -/
theorem readValue_scalar {c : CodePoint} {r : Text} {fuel : Nat}
    (h : c ≠ .char '"' ∧ c ≠ .char '[' ∧ c ≠ .char '\x7b') :
    readValue (fuel + 1) depth (c :: r) = readScalar (c :: r) := by
  obtain ⟨hquote, hbracket, hbrace⟩ := h
  unfold readValue
  split
  · next he => cases he; exact absurd rfl hquote
  · next he => cases he; exact absurd rfl hbracket
  · next he => cases he; exact absurd rfl hbrace
  · rfl

theorem ReadsBack.of_scalar
    (h : ∀ level, ∃ c r, writeAt level v = c :: r ∧ isSpace c = false ∧ c ≠ .char ']' ∧
      c ≠ .char '\x7d' ∧ c ≠ .char '"' ∧ c ≠ .char '[' ∧ c ≠ .char '\x7b')
    (hread : ∀ level rest, Stops rest → readScalar (writeAt level v ++ rest) = .ok (v, rest)) :
    ReadsBack depth v := by
  refine ⟨fun level => ?_, fun {level fuel rest} hrest hfuel => ?_⟩
  · obtain ⟨c, r, hcons, hspace, harr, hobj, -⟩ := h level
    exact ⟨c, r, hcons, hspace, harr, hobj⟩
  · obtain ⟨c, r, hcons, -, -, -, hscalar⟩ := h level
    have hread := hread level rest hrest
    rw [hcons, List.length_cons] at hfuel
    obtain ⟨fuel, rfl⟩ : ∃ k, fuel = k + 1 := ⟨fuel - 1, by omega⟩
    rw [hcons, List.cons_append] at hread ⊢
    rw [readValue_scalar hscalar, hread]

theorem readsBack_int {i : Int} (hi : IsShort i) : ReadsBack depth (.int i) := by
  refine .of_scalar (fun level => ?_) fun level rest hrest => readScalar_ofInt hrest hi
  cases i with
  | ofNat n =>
    obtain ⟨c, r, hcons, hc⟩ := exists_ofNat_cons n
    obtain ⟨k, hk, rfl⟩ := Text.exists_digit hc
    exact ⟨_, r, hcons, by interval_cases k <;> decide⟩
  | negSucc n => exact ⟨.char '-', _, rfl, by decide⟩

theorem readsBack_of_isWritable (h : IsWritable depth v) : ReadsBack depth v := by
  induction h with
  | null => exact .of_scalar (fun _ => ⟨_, _, rfl, by decide⟩) fun _ _ _ => rfl
  | bool b =>
    cases b with
    | false => exact .of_scalar (fun _ => ⟨_, _, rfl, by decide⟩) fun _ _ _ => rfl
    | true => exact .of_scalar (fun _ => ⟨_, _, rfl, by decide⟩) fun _ _ _ => rfl
  | int hi => exact readsBack_int hi
  | str t =>
    refine ⟨fun _ => opens_writeString t, fun {level fuel rest} _ hfuel => ?_⟩
    have hlength : 0 < (writeAt level (.str t)).length := Nat.succ_pos _
    obtain ⟨fuel, rfl⟩ : ∃ k, fuel = k + 1 := ⟨fuel - 1, by omega⟩
    rw [writeAt, writeString_append, readValue, readQuoted_flatMap]
    rfl
  | arr _ ih => exact .arr ih
  | obj hkeys _ ih => exact .obj hkeys ih

theorem stops_of_isSpace {space : Text} (h : ∀ c ∈ space, isSpace c = true) : Stops space := by
  rintro c r rfl
  have hc := h c List.mem_cons_self
  simp only [isSpace, Bool.or_eq_true, beq_iff_eq] at hc
  obtain ((rfl | rfl) | rfl) | rfl := hc <;> decide

/-- A value that is laid out is read back, whatever white space stands behind it. -/
theorem read_indented {space : Text} (h : IsWritable maxDepth v)
    (hspace : ∀ c ∈ space, isSpace c = true) : read (v.indented ++ space) = .ok v := by
  have hback := readsBack_of_isWritable h
  have hstart : skipSpace (v.indented ++ space) = v.indented ++ space :=
    ((hback.opens 0).append space).skipSpace
  have hend : skipSpace space = [] := by
    rw [← List.append_nil space, skipSpace, List.dropWhile_append_of_pos hspace]
    rfl
  have hvalue : readValue (2 * (v.indented ++ space).length + 2) maxDepth (v.indented ++ space) =
      .ok (v, space) :=
    hback.value (stops_of_isSpace hspace) (by rw [List.length_append, indented]; omega)
  rw [read, hstart, hvalue]
  dsimp only
  rw [hend]
  rfl

end Json

end Graft
