import Graft.Disk
import Graft.Proofs.Steps

/-!
# What the operations of a disk leave alone

Every operation of a disk follows a path and then changes one location. What following a path
depends on is the working directory and the directories on the way (`KeepsDirectories`,
`locate_of_keeps`), and where it ends is settled by the names alone (`locate_eq`). So once it is
known which locations an operation touches, everything else about the next operation follows.

An entry that a path names in a directory that can be changed is `Names d p k`. A file so named can
be moved to another name of the same directory and removed, and the disk afterwards is given in
full (`rename_file`, `removeFile_file`).

`SameBut` says that two disks differ at listed locations at most.
-/

namespace Graft

namespace Path

theorem name_isEmpty_of_isEntry {p : Path} (h : p.isEntry = true) : p.name.isEmpty = false := by
  have := (Bool.and_eq_true_iff.1 h).1
  simpa using this

/-- An entry's path leads to the location of its directory and then to its name. -/
theorem location_of_isEntry {p : Path} (here : Location) (h : p.isEntry = true) :
    ∃ base, p.location here = base ++ [p.name] ∧
      ∀ {n : Text}, n ≠ up → (p.sibling n).location here = base ++ [n] := by
  have hname : p.name ≠ [] ∧ p.name ≠ up := by
    simpa [isEntry] using h
  -- the last step is down to the name, and the names before it lead to `base`
  have hparts : p.parts = p.parts.dropLast ++ [p.name] := by
    cases hl : p.parts.getLast? with
    | none => exact absurd (by simp [Path.name, hl]) hname.1
    | some last =>
      have hne : p.parts ≠ [] := by
        intro he
        rw [he] at hl
        cases hl
      rw [Path.name, hl, Option.getD_some]
      rw [List.getLast?_eq_some_getLast hne, Option.some.injEq] at hl
      rw [← hl, List.dropLast_concat_getLast hne]
  refine ⟨p.parts.dropLast.foldl step (if p.start = .here then here else []), ?_, ?_⟩
  · rw [location]
    conv => lhs; rw [hparts]
    rw [List.foldl_append, List.foldl_cons, List.foldl_nil, step, if_neg hname.2]
  · intro n hn
    show (p.parts.dropLast ++ [n]).foldl step (if p.start = .here then here else []) = _
    rw [List.foldl_append, List.foldl_cons, List.foldl_nil, step, if_neg hn]

/-- In a path in writing there is what is in its names, and what they are told apart by. -/
theorem mem_toText {p : Path} {c : CodePoint} (h : c ∈ p.toText) :
    c = .char '/' ∨ c = .char '.' ∨ ∃ part ∈ p.parts, c ∈ part := by
  have hjoined : c ∈ Text.join [.char '/'] p.parts →
      c = .char '/' ∨ c = .char '.' ∨ ∃ part ∈ p.parts, c ∈ part := fun h =>
    (Text.mem_join h).imp List.mem_singleton.1 .inr
  unfold toText at h
  split at h
  · rcases List.mem_cons.1 h with rfl | h
    · exact .inl rfl
    · exact hjoined h
  · rcases List.mem_cons.1 h with rfl | h
    · exact .inl rfl
    · rcases List.mem_cons.1 h with rfl | h
      · exact .inl rfl
      · exact hjoined h
  · split at h
    · exact .inr (.inl (List.mem_singleton.1 h))
    · exact hjoined h

end Path

namespace Disk

variable {d d' d'' : Disk} {p q : Path} {l k : Location} {f g : File} {places : List Location}

/-! ## Following a path -/

/-- Names can be looked up in a directory that lets them. -/
theorem enter_eq_ok_iff : d.enter p l = .ok () ↔
    ∃ m, d.at? l = some (.directory m) ∧ m.grants .search = true := by
  unfold enter
  split
  · next h => simp [h]
  · next h => simp [h]
  · next m h =>
    rw [h]
    by_cases hm : m.grants .search = true
    · simp [hm]
    · simp [hm]

/-- The names alone tell where following them ends. -/
theorem follow_eq {parts : List Text} (h : d.follow p l parts = .ok k) :
    k = parts.foldl Path.step l := by
  induction parts generalizing l with
  | nil =>
    cases h
    rfl
  | cons part rest ih =>
    unfold follow at h
    split at h
    · cases h
    · split at h
      · cases h
      · exact ih h

/-- The last name is looked up in the directory that the names before it lead to. -/
theorem follow_concat {parts : List Text} {part : Text}
    (h : d.follow p l (parts ++ [part]) = .ok k) :
    d.enter p (parts.foldl Path.step l) = .ok () := by
  induction parts generalizing l with
  | nil =>
    rw [List.nil_append] at h
    unfold follow at h
    split at h
    · cases h
    · next he => exact he
  | cons first rest ih =>
    rw [List.cons_append] at h
    unfold follow at h
    split at h
    · cases h
    · split at h
      · cases h
      · exact ih h

/-- The last name of what can be followed is not too long. -/
theorem short_of_follow {parts : List Text} {part : Text}
    (h : d.follow p l (parts ++ [part]) = .ok k) : exceeds maxName part = false := by
  induction parts generalizing l with
  | nil =>
    rw [List.nil_append] at h
    unfold follow at h
    split at h
    · cases h
    · split at h
      · cases h
      · next hshort => simpa using hshort
  | cons first rest ih =>
    rw [List.cons_append] at h
    unfold follow at h
    split at h
    · cases h
    · split at h
      · cases h
      · exact ih h

/-- A path is taken if none of its names holds the null character, or what no name has. -/
theorem refusal?_eq_none_iff :
    refusal? p = none ↔ p.unencodable? = none ∧ p.hasNull = false := by
  unfold refusal?
  cases p.unencodable? with
  | some e => simp
  | none =>
    cases p.hasNull with
    | true => simp
    | false => simp

theorem unencodable?_eq_none (h : ∀ part ∈ p.parts, ∀ c ∈ part, c.isNameable = true) :
    p.unencodable? = none := by
  have htext : ∀ c ∈ p.toText, c.isNameable = true := by
    intro c hc
    rcases Path.mem_toText hc with rfl | rfl | ⟨part, hpart, hc⟩
    · rfl
    · rfl
    · exact h part hpart c hc
  have hnone : p.toText.findIdx? (!·.isNameable) = none := by
    rw [List.findIdx?_eq_none_iff]
    exact fun c hc => by rw [htext c hc]; rfl
  simp only [Path.unencodable?, hnone, Option.map_none]

/-- A path that leads somewhere is followed from the working directory or from the root. -/
theorem locate_eq_ok_iff : d.locate p = .ok l ↔
    refusal? p = none ∧ exceeds maxPath p.toText = false ∧
      (p.start = .here → d.enter p d.here = .ok ()) ∧
      d.follow p (if p.start = .here then d.here else []) p.parts = .ok l := by
  unfold locate
  cases refusal? p with
  | some e => simp
  | none =>
    cases exceeds maxPath p.toText with
    | true => simp
    | false =>
      by_cases hs : p.start = .here
      · cases he : d.enter p d.here with
        | error e => simp [hs, bind, Except.bind]
        | ok u => simp [hs, bind, Except.bind]
      · simp [hs]

/-- Where a path leads is told by its names alone. -/
theorem locate_eq (h : d.locate p = .ok l) : l = p.location d.here :=
  follow_eq (locate_eq_ok_iff.1 h).2.2.2

/-- All directories are still there with their permission bits, and the user is where they were. -/
structure KeepsDirectories (d d' : Disk) : Prop where
  here : d'.here = d.here
  directory : ∀ {l : Location} {m : Mode}, d.at? l = some (.directory m) →
    d'.at? l = some (.directory m)

theorem KeepsDirectories.refl (d : Disk) : KeepsDirectories d d :=
  ⟨rfl, id⟩

theorem KeepsDirectories.trans (h : KeepsDirectories d d') (h' : KeepsDirectories d' d'') :
    KeepsDirectories d d'' :=
  ⟨h'.here.trans h.here, fun hl => h'.directory (h.directory hl)⟩

theorem enter_of_keeps (h : KeepsDirectories d d') (he : d.enter p l = .ok ()) :
    d'.enter q l = .ok () := by
  obtain ⟨m, hm, hg⟩ := enter_eq_ok_iff.1 he
  exact enter_eq_ok_iff.2 ⟨m, h.directory hm, hg⟩

theorem follow_of_keeps (h : KeepsDirectories d d') {parts : List Text}
    (hf : d.follow p l parts = .ok k) : d'.follow q l parts = .ok k := by
  induction parts generalizing l with
  | nil => exact hf
  | cons part rest ih =>
    unfold follow at hf ⊢
    split at hf
    · cases hf
    · next he =>
      rw [enter_of_keeps h he]
      dsimp only
      split at hf
      · cases hf
      · next hlong =>
        rw [if_neg hlong]
        exact ih hf

/-- While the directories are kept, a path leads where it led. -/
theorem locate_of_keeps (h : KeepsDirectories d d') (hl : d.locate p = .ok l) :
    d'.locate p = .ok l := by
  obtain ⟨htaken, hlong, he, hf⟩ := locate_eq_ok_iff.1 hl
  refine locate_eq_ok_iff.2 ⟨htaken, hlong, ?_, ?_⟩
  · intro hs
    rw [h.here]
    exact enter_of_keeps h (he hs)
  · rw [h.here]
    exact follow_of_keeps h hf

/-- One more name leads one step further, if names can be looked up in the directory reached. -/
theorem follow_append {parts : List Text} {name : Text} (h : d.follow p l parts = .ok k)
    (he : d.enter p k = .ok ()) (hshort : exceeds maxName name = false) :
    d.follow p l (parts ++ [name]) = .ok (Path.step k name) := by
  induction parts generalizing l with
  | nil =>
    cases h
    rw [List.nil_append, follow, he]
    dsimp only
    rw [if_neg (by simp [hshort])]
    rfl
  | cons part rest ih =>
    rw [List.cons_append]
    unfold follow at h ⊢
    split at h
    · cases h
    · split at h
      · cases h
      · next hlong =>
        rw [if_neg hlong]
        exact ih h

/-- A name in a directory leads to the entry of that name. -/
theorem locate_child {m : Mode} {name : Text} (hl : d.locate p = .ok l)
    (hdir : d.at? l = some (.directory m)) (hm : m.grants .search = true) (hup : name ≠ Path.up)
    (htaken : refusal? (p.child name) = none)
    (hlong : exceeds maxPath (p.child name).toText = false)
    (hshort : exceeds maxName name = false) : d.locate (p.child name) = .ok (l ++ [name]) := by
  obtain ⟨-, -, hstart, hfollow⟩ := locate_eq_ok_iff.1 hl
  have he : ∀ q, d.enter q l = .ok () := fun q => enter_eq_ok_iff.2 ⟨m, hdir, hm⟩
  refine locate_eq_ok_iff.2 ⟨htaken, hlong, ?_, ?_⟩
  · intro hs
    exact enter_of_keeps (.refl d) (hstart hs)
  · have happend := follow_append (follow_of_keeps (q := p.child name) (.refl d) hfollow) (he _) hshort
    rw [Path.step, if_neg hup] at happend
    exact happend

/-! ## Differing at listed locations only -/

/-- The disks differ at some locations at most, and the user is where they were. -/
structure SameBut (places : List Location) (d d' : Disk) : Prop where
  here : d'.here = d.here
  elsewhere : ∀ {k : Location}, k ∉ places → d'.at? k = d.at? k

theorem SameBut.refl (places : List Location) (d : Disk) : SameBut places d d :=
  ⟨rfl, fun _ => rfl⟩

theorem SameBut.trans (h : SameBut places d d') (h' : SameBut places d' d'') :
    SameBut places d d'' :=
  ⟨h'.here.trans h.here, fun hk => (h'.elsewhere hk).trans (h.elsewhere hk)⟩

theorem SameBut.mono {more : List Location} (h : SameBut places d d')
    (hsub : places ⊆ more) : SameBut more d d' :=
  ⟨h.here, fun hk => h.elsewhere fun hmem => hk (hsub hmem)⟩

theorem sameBut_put (h : l ∈ places) (node : Node) : SameBut places d (d.put l node) :=
  ⟨rfl, fun hk => at?_put_of_ne d node fun he => hk (he ▸ h)⟩

theorem sameBut_erase (h : l ∈ places) : SameBut places d (d.erase l) :=
  ⟨rfl, fun hk => at?_erase_of_ne d fun he => hk (he ▸ h)⟩

theorem not_directory_of_none (hk : d.at? k = none) (m : Mode) :
    d.at? k ≠ some (.directory m) := by
  intro hm
  rw [hk] at hm
  cases hm

theorem not_directory_of_file (hf : d.at? k = some (.file f)) (m : Mode) :
    d.at? k ≠ some (.directory m) := by
  intro hm
  rw [hf] at hm
  cases hm

/-- If no directory at one of the locations changes, all are kept. -/
theorem SameBut.keepsDirectories (h : SameBut places d d')
    (hd : ∀ k ∈ places, ∀ m, d.at? k = some (.directory m) → d'.at? k = d.at? k) :
    KeepsDirectories d d' := by
  refine ⟨h.here, fun {l m} hl => ?_⟩
  by_cases hmem : l ∈ places
  · rw [hd l hmem m hl, hl]
  · rw [h.elsewhere hmem, hl]

/-- A change to something else than a directory keeps all directories. -/
theorem SameBut.keepsDirectories_of_not (h : SameBut [k] d d')
    (hk : ∀ m, d.at? k ≠ some (.directory m)) : KeepsDirectories d d' := by
  refine h.keepsDirectories ?_
  intro j hj m hm
  rw [List.mem_singleton.1 hj] at hm
  exact absurd hm (hk m)

/-! ## Entries that can be changed -/

/-- The entries of a directory can be changed. -/
theorem holder_eq_ok_iff {m : Mode} : d.holder p l = .ok m ↔
    d.at? l.dropLast = some (.directory m) ∧ m.grants .write = true ∧ isDetached l = false := by
  unfold holder
  split
  · next h => simp [h]
  · next h => simp [h]
  · next m' h =>
    rw [h]
    cases hm : m'.grants .write with
    | false =>
      simp only [Bool.not_false, if_true, Option.some.injEq, Node.directory.injEq]
      constructor
      · intro he
        cases he
      · rintro ⟨rfl, hw, -⟩
        rw [hm] at hw
        cases hw
    | true =>
      cases hdet : isDetached l with
      | true => simp
      | false =>
        simp only [Bool.not_true, Bool.false_eq_true, if_false, Except.ok.injEq, Option.some.injEq,
          Node.directory.injEq, and_true]
        constructor
        · rintro rfl
          exact ⟨rfl, hm⟩
        · exact fun h => h.1

/-- What has a name in a directory is removed with the directory only. -/
theorem isDetached_child {name : Text} (h : isDetached l = false) (hne : name ≠ []) :
    isDetached (l ++ [name]) = false := by
  have hempty : name.isEmpty = false := by simpa using hne
  unfold isDetached at h ⊢
  rw [List.any_append, h, List.any_cons, hempty]
  rfl

/-- A path names an entry of a directory whose entries can be changed. -/
structure Names (d : Disk) (p : Path) (k : Location) : Prop where
  located : d.locate p = .ok k
  entry : p.isEntry = true
  held : ∃ m, d.holder p k = .ok m

theorem holder_of_keeps (h : KeepsDirectories d d') {m : Mode} (hh : d.holder p l = .ok m) :
    d'.holder q l = .ok m := by
  obtain ⟨hm, hrest⟩ := holder_eq_ok_iff.1 hh
  exact holder_eq_ok_iff.2 ⟨h.directory hm, hrest⟩

theorem Names.of_keeps (h : KeepsDirectories d d') (hn : d.Names p k) : d'.Names p k := by
  obtain ⟨m, hm⟩ := hn.held
  exact ⟨locate_of_keeps h hn.located, hn.entry, m, holder_of_keeps h hm⟩

theorem Names.ne_nil (h : d.Names p k) : k ≠ [] := by
  obtain ⟨base, hbase, -⟩ := Path.location_of_isEntry d.here h.entry
  rw [locate_eq h.located, hbase]
  simp

/-- A new file is put where there was nothing. -/
theorem createFile_eq_ok {content : ByteArray} (h : d.createFile p content = .ok d') :
    ∃ k m, d.locate p = .ok k ∧ d.at? k = none ∧ d.holder p k = .ok m ∧
      d' = d.put k (.file ⟨content, Mode.newFile⟩) := by
  obtain ⟨k, hl, h⟩ := exists_of_bind_eq_ok h
  split at h
  · cases h
  · next hk =>
    obtain ⟨m, hh, h⟩ := exists_of_bind_eq_ok h
    cases h
    exact ⟨k, m, hl, hk, hh, rfl⟩

theorem writeFile_file {content : ByteArray} (hl : d.locate p = .ok k)
    (hf : d.at? k = some (.file f)) (hw : f.mode.grants .write = true) :
    d.writeFile p content = .ok (d.put k (.file ⟨content, f.mode.afterWrite⟩)) := by
  simp [writeFile, hl, hf, hw, bind, Except.bind, pure, Except.pure]

theorem writeFile_missing {content : ByteArray} {m : Mode} (hl : d.locate p = .ok k)
    (hk : d.at? k = none) (hm : d.holder p k = .ok m) :
    d.writeFile p content = .ok (d.put k (.file ⟨content, Mode.newFile⟩)) := by
  simp [writeFile, hl, hk, hm, bind, Except.bind, pure, Except.pure]

theorem setMode_file {mode : Nat} (hl : d.locate p = .ok k) (hf : d.at? k = some (.file f)) :
    d.setMode p mode = .ok (d.put k (.file { f with mode := .ofNat mode })) := by
  simp [setMode, hl, hf, bind, Except.bind, pure, Except.pure]

theorem removeFile_file (hn : d.Names p k) (hf : d.at? k = some (.file f)) :
    d.removeFile p = .ok (d.erase k) := by
  obtain ⟨m, hm⟩ := hn.held
  simp [removeFile, hn.located, hf, hm, bind, Except.bind, pure, Except.pure]

theorem removeFile_missing (hl : d.locate p = .ok k) (hk : d.at? k = none) :
    d.removeFile p = .error (.missing p) := by
  simp [removeFile, hl, hk, bind, Except.bind]

/-- A file takes another name beside its own, and what was there before is gone. -/
theorem rename_file (hp : d.Names p k) (hq : d.Names q l) (hf : d.at? k = some (.file f))
    (hfree : ∀ m, d.at? l ≠ some (.directory m)) (hne : k ≠ l) (hlen : k.length = l.length) :
    d.rename p q = .ok ((d.erase k).put l (.file f)) := by
  obtain ⟨m, hm⟩ := hp.held
  obtain ⟨m', hm'⟩ := hq.held
  -- nothing is moved below itself: the locations are different, and equally long
  have hpre : k.isPrefixOf l = false := by
    rw [Bool.eq_false_iff]
    intro hpre
    exact hne ((List.isPrefixOf_iff_prefix.1 hpre).eq_of_length hlen)
  simp only [rename, hp.located, hq.located, hp.entry, hq.entry, hf, hm, hm', hpre, if_neg hne,
    bind, Except.bind, pure, Except.pure, Bool.and_self, Bool.not_true, Bool.false_eq_true, if_false]

section Moved

variable (d : Disk) (node : Node)

theorem at?_moved_new : ((d.erase k).put l node).at? l = some node :=
  at?_put_self _ l node

theorem at?_moved_old (hk : k ≠ []) (hne : k ≠ l) : ((d.erase k).put l node).at? k = none := by
  rw [at?_put_of_ne _ node hne, at?_erase_self d k hk]

theorem sameBut_moved (hk : k ∈ places) (hl : l ∈ places) :
    SameBut places d ((d.erase k).put l node) :=
  (sameBut_erase hk).trans (sameBut_put hl node)

end Moved

/-- A file can be read where a path leads to one whose permission bits allow it. -/
theorem fileAt_eq_ok_iff : d.fileAt p = .ok f ↔
    ∃ l, d.locate p = .ok l ∧ d.at? l = some (.file f) ∧ f.mode.grants .read = true := by
  unfold fileAt
  cases hl : d.locate p with
  | error e => simp [bind, Except.bind]
  | ok l =>
    simp only [bind, Except.bind, Except.ok.injEq]
    cases hnode : d.at? l with
    | none => simp [hnode]
    | some node =>
      cases node with
      | directory m => simp [hnode]
      | file g =>
        by_cases hg : g.mode.grants .read = true
        · simp [hnode, hg, pure, Except.pure]
          grind
        · simp [hnode, hg]
          grind

/-- Only entries are renamed, and only to entries. -/
theorem isEntry_of_rename (h : d.rename p q = .ok d') : p.isEntry = true ∧ q.isEntry = true := by
  obtain ⟨k, -, h⟩ := exists_of_bind_eq_ok h
  obtain ⟨l, -, h⟩ := exists_of_bind_eq_ok h
  split at h
  · cases h
  · next he => simpa using he

/-- What is renamed is given a name that leads somewhere. -/
theorem locate_of_rename (h : d.rename p q = .ok d') : ∃ l, d.locate q = .ok l := by
  obtain ⟨k, -, h⟩ := exists_of_bind_eq_ok h
  obtain ⟨l, hl, -⟩ := exists_of_bind_eq_ok h
  exact ⟨l, hl⟩

/-! ## Entries of one directory -/

/-- A path with another last name leads to the entry of that name beside the first. -/
theorem locate_sibling {n : Text} (hl : d.locate p = .ok l) (he : p.isEntry = true)
    (hn : n ≠ Path.up) (hk : d.locate (p.sibling n) = .ok k) : k = l.dropLast ++ [n] := by
  obtain ⟨base, hbase, hsib⟩ := Path.location_of_isEntry d.here he
  rw [locate_eq hk, hsib hn, locate_eq hl, hbase, List.dropLast_concat]

theorem eq_dropLast_concat (hl : d.locate p = .ok l) (he : p.isEntry = true) :
    l = l.dropLast ++ [p.name] := by
  obtain ⟨base, hbase, -⟩ := Path.location_of_isEntry d.here he
  rw [locate_eq hl, hbase, List.dropLast_concat]

/-- Entries of one directory can be changed alike. -/
theorem Names.beside {n : Text} (hq : d.Names q (l.dropLast ++ [n])) (hl : d.locate p = .ok l)
    (he : p.isEntry = true) : d.Names p l := by
  refine ⟨hl, he, ?_⟩
  obtain ⟨m, hm⟩ := hq.held
  obtain ⟨hdir, hw, hdet⟩ := holder_eq_ok_iff.1 hm
  rw [List.dropLast_concat] at hdir
  refine ⟨m, holder_eq_ok_iff.2 ⟨hdir, hw, ?_⟩⟩
  -- the directory is the same, and the name of `p` is not empty either
  have hname : p.name ≠ [] := by simpa using Path.name_isEmpty_of_isEntry he
  rw [eq_dropLast_concat hl he]
  simp only [isDetached, List.any_append, Bool.or_eq_false_iff] at hdet
  exact isDetached_child hdet.1 hname

/-- While a path that holds no null character is followed, none is met. -/
theorem locate_ne_nullCharacter (h : p.hasNull = false) : d.locate p ≠ .error .nullCharacter := by
  -- the check comes first, and neither entering a directory nor following names tells of one
  have henter : ∀ l, d.enter p l ≠ .error .nullCharacter := by
    intro l he
    unfold enter at he
    split at he
    · cases he
    · cases he
    · split at he
      · cases he
      · cases he
  have hfollow : ∀ (parts : List Text) (l : Location),
      d.follow p l parts ≠ .error .nullCharacter := by
    intro parts
    induction parts with
    | nil => exact fun l he => by cases he
    | cons part rest ih =>
      intro l he
      unfold follow at he
      split at he
      · next e hl =>
        rw [Except.error.injEq] at he
        exact henter l (he ▸ hl)
      · split at he
        · cases he
        · exact ih _ he
  intro he
  unfold locate at he
  split at he
  · next e hrefused =>
    cases he
    unfold refusal? at hrefused
    split at hrefused
    · cases hrefused
    · rw [h] at hrefused
      cases hrefused
  · split at he
    · cases he
    · split at he
      · cases hl : d.enter p d.here with
        | error e =>
          rw [hl] at he
          cases he
          exact henter _ hl
        | ok u =>
          rw [hl] at he
          exact hfollow _ _ he
      · exact hfollow _ _ he

/-! ## Trees -/

/-- Whether everything stands in a directory, the root apart, and every file has a name. -/
def isTree (d : Disk) : Bool :=
  d.nodes.all fun (key, node) =>
    (key.location.isEmpty || d.at? key.location.dropLast matches some (.directory _)) &&
      (node matches .directory _ || !(key.location.getLast?.getD []).isEmpty)

theorem mem_of_find? {key : Key} {node : Node} {nodes : Nodes}
    (h : nodes.find? key = some node) : (key, node) ∈ nodes := by
  induction nodes with
  | nil => cases h
  | cons e rest ih =>
    obtain ⟨k, old⟩ := e
    unfold Nodes.find? at h
    split at h
    · next hk =>
      cases h
      exact hk ▸ List.mem_cons_self
    · exact List.mem_cons_of_mem _ (ih h)

/-- In a tree there is nothing but the root outside of a directory, and no file without a name. -/
theorem shape_of_isTree {node : Node} (htree : d.isTree = true) (h : d.at? l = some node) :
    (l = [] ∨ ∃ m, d.at? l.dropLast = some (.directory m)) ∧
      ((∃ m, node = .directory m) ∨ l.getLast?.getD [] ≠ []) := by
  unfold at? at h
  split at h
  · next old hfind =>
    cases h
    have hall := List.all_eq_true.1 htree _ (mem_of_find? hfind)
    simp only [Key.of, Bool.and_eq_true, Bool.or_eq_true] at hall
    obtain ⟨hparent, hname⟩ := hall
    constructor
    · rcases hparent with hl | hdir
      · exact .inl (List.isEmpty_iff.1 hl)
      · right
        split at hdir
        · next m hm => exact ⟨m, hm⟩
        · cases hdir
    · rcases hname with hdir | hname
      · left
        split at hdir
        · next m => exact ⟨m, rfl⟩
        · cases hdir
      · right
        simpa using hname
  · next hfind =>
    split at h
    · next hl =>
      cases h
      exact ⟨.inl hl, .inl ⟨_, rfl⟩⟩
    · cases h

/-- The path of a file ends in the name of the file. -/
theorem isEntry_of_isTree (htree : d.isTree = true) (hl : d.locate p = .ok l)
    (hf : d.at? l = some (.file f)) : p.isEntry = true := by
  obtain ⟨-, -, hstart, hfollow⟩ := locate_eq_ok_iff.1 hl
  have hne : l.getLast?.getD [] ≠ [] := by
    rcases (shape_of_isTree htree hf).2 with ⟨m, hm⟩ | hne
    · cases hm
    · exact hne
  rcases List.eq_nil_or_concat p.parts with hparts | ⟨parts, last, hparts⟩
  · -- a path without names leads to a directory
    exfalso
    rw [hparts] at hfollow
    cases hfollow
    by_cases hs : p.start = .here
    · obtain ⟨m, hm, -⟩ := enter_eq_ok_iff.1 (hstart hs)
      rw [if_pos hs, hm] at hf
      cases hf
    · rw [if_neg hs] at hne
      exact hne rfl
  · rw [List.concat_eq_append] at hparts
    have hname : p.name = last := by
      simp [Path.name, hparts]
    rw [hparts] at hfollow
    obtain ⟨m, hm, -⟩ := enter_eq_ok_iff.1 (follow_concat hfollow)
    have hstep := follow_eq hfollow
    rw [List.foldl_append, List.foldl_cons, List.foldl_nil] at hstep
    generalize parts.foldl Path.step (if p.start = .here then d.here else []) = base at hm hstep
    -- above a directory there is a directory, so the last name does not lead up to the file
    have hup : last ≠ Path.up := by
      rintro rfl
      rw [Path.step, if_pos rfl] at hstep
      subst hstep
      rcases (shape_of_isTree htree hm).1 with rfl | ⟨m', hm'⟩
      · exact hne rfl
      · rw [hm'] at hf
        cases hf
    rw [Path.step, if_neg hup] at hstep
    subst hstep
    rw [List.getLast?_concat, Option.getD_some] at hne
    simp [Path.isEntry, hname, hne, hup]

end Disk

end Graft
