import Graft.Proofs.Config.Loading
import Graft.Proofs.Disk.Sparing
import Graft.Proofs.Json.RoundTrip

/-!
# Configurations that are saved and loaded

A configuration whose paths are texts, or not there, and none of whose values is empty
(`IsStorable`) comes out of its object as it went in (`ofJson_toJson`): no default takes the place
of a value that is there. The object comes out of its text as it went in (`Json.read_indented`), and
the text comes from where it was put: `Config.save` writes it to a temporary file beside the file of
the configuration and moves it there.

> `load_save`: where no call is refused, a configuration whose strings can be written is saved and
> loaded again, and no file is left behind but the one that was meant.

The condition on the strings is that of the whole text (`writes_content_iff`), and it is needed: the
text is encoded when the temporary file is already there, and a text that holds half of a surrogate
pair leaves that file behind, empty (`save_of_not_writes`).
-/

namespace Graft

namespace Config

variable {env : Environment} {d d' d₁ d₂ : Disk} {path : Path} {c : Config} {l k : Location}

/-! ## Objects -/

/-- A path that is not there, or a text that is not empty. -/
def IsPathField (v : Option Json) : Prop :=
  ∀ w, v = some w → ∃ t, w = .str t ∧ t ≠ []

/-- A configuration that is found again in its object. -/
structure IsStorable (c : Config) : Prop extends IsSound c where
  templatePath : IsPathField c.templatePath
  backupDirectory : IsPathField c.backupDirectory
  fragmentsFile : IsPathField c.fragmentsFile
  toolchain : c.toolchain ≠ []
  short : Json.IsShort c.retention

/-- The environment settles nothing. -/
structure Silent (env : Environment) : Prop where
  toolchain : env.value? Environment.toolchainVariable = none
  backups : env.value? Environment.backupVariable = none
  retention : env.trimmed? Environment.retentionVariable = none

theorem Silent.withEnvironment (h : Silent env) (c : Config) : c.withEnvironment env = c := by
  unfold Config.withEnvironment
  rw [h.toolchain, h.backups, h.retention]
  rfl

/-- A path that is not there is written as null, and null does not count as given. -/
theorem IsPathField.given? {v : Option Json} (h : IsPathField v) :
    (v.getD .null).given? = v := by
  cases v with
  | none => rfl
  | some w =>
    obtain ⟨t, rfl, ht⟩ := h w rfl
    cases t with
    | nil => exact absurd rfl ht
    | cons c r => rfl

theorem given?_str {t : Text} (h : t ≠ []) : (Json.str t).given? = some (.str t) := by
  cases t with
  | nil => exact absurd rfl h
  | cons c r => rfl

theorem policyOf_name (policy : BackupPolicy) :
    policyOf (some (.str policy.name)) = policy.name := by
  cases policy <;> rfl

/-- The values under the keys of the object. -/
theorem field?_toJson (c : Config) :
    field? "template_path" c.toJson = (c.templatePath.getD .null).given? ∧
      field? "backup_dir" c.toJson = (c.backupDirectory.getD .null).given? ∧
      field? "backup_retention" c.toJson = (Json.int c.retention).given? ∧
      field? "additive_backup_policy" c.toJson = (Json.str c.policy).given? ∧
      field? "toolchain" c.toJson = (Json.str c.toolchain).given? ∧
      field? "fragments_file" c.toJson = (c.fragmentsFile.getD .null).given? :=
  ⟨rfl, rfl, rfl, rfl, rfl, rfl⟩

/-- A configuration comes out of its object as it went in. -/
theorem ofJson_toJson (h : c.IsStorable) : ofJson c.toJson = .ok c := by
  obtain ⟨htemplate, hbackups, hretention, hpolicy, htoolchain, hfragments⟩ := field?_toJson c
  have hcount : retentionOf (some (.int c.retention)) = .ok c.retention := by
    rw [retentionOf, Int.max_eq_right h.retention]
  have hgiven : (Json.int c.retention).given? = some (.int c.retention) := by
    have hpos := h.retention
    have hne : c.retention ≠ 0 := by omega
    simp [Json.given?, Json.isGiven, hne]
  obtain ⟨policy, hname⟩ := h.policy
  have hnonempty : policy.name ≠ [] := by cases policy <;> decide
  unfold ofJson
  rw [htemplate, hbackups, hretention, hpolicy, htoolchain, hfragments, h.templatePath.given?,
    h.backupDirectory.given?, h.fragmentsFile.given?, hgiven, hcount, hname, given?_str hnonempty,
    given?_str h.toolchain, policyOf_name, ← hname]
  rfl

theorem IsPathField.isWritable {v : Option Json} (h : IsPathField v) {depth : Nat} :
    Json.IsWritable depth (v.getD .null) := by
  cases v with
  | none => exact .null
  | some w =>
    obtain ⟨t, rfl, -⟩ := h w rfl
    exact .str t

theorem isWritable_toJson (h : c.IsStorable) : Json.IsWritable Json.maxDepth c.toJson := by
  refine .obj (show (Table.keys (toJson {}).fields).Nodup by decide) ?_
  simp only [List.forall_mem_cons]
  exact ⟨h.templatePath.isWritable, h.backupDirectory.isWritable, .int h.short, .str _, .str _,
    h.fragmentsFile.isWritable, by simp⟩

/-- A configuration comes out of the text of its file. -/
theorem read_content (h : c.IsStorable) : Json.read c.content = .ok c.toJson :=
  Json.read_indented (isWritable_toJson h) (by decide)

/-- No string of a configuration holds half of a surrogate pair. -/
structure IsEncodable (c : Config) : Prop where
  templatePath : ∀ t, c.templatePath = some (.str t) → Encoding.utf8.writes t = true
  backupDirectory : ∀ t, c.backupDirectory = some (.str t) → Encoding.utf8.writes t = true
  fragmentsFile : ∀ t, c.fragmentsFile = some (.str t) → Encoding.utf8.writes t = true
  toolchain : Encoding.utf8.writes c.toolchain = true

theorem IsPathField.writes_writeAt_iff {v : Option Json} (h : IsPathField v) (level : Nat) :
    Encoding.utf8.writes ((v.getD .null).writeAt level) = true ↔
      ∀ t, v = some (.str t) → Encoding.utf8.writes t = true := by
  cases v with
  | none => simp [Json.writeAt]
  | some w =>
    obtain ⟨t, rfl, -⟩ := h w rfl
    simp [Json.writeAt, Json.writes_writeString]

/-- The text of its file can be written exactly then. -/
theorem writes_content_iff (h : c.IsStorable) :
    Encoding.utf8.writes c.content = true ↔ c.IsEncodable := by
  have hpolicy : Encoding.utf8.writes c.policy = true := by
    obtain ⟨policy, hname⟩ := h.policy
    rw [hname]
    cases policy <;> exact Encoding.writes_toText _
  have hwritten : Encoding.utf8.writes c.content =
      (Encoding.utf8.writes ((c.templatePath.getD .null).writeAt 1) &&
        (Encoding.utf8.writes ((c.backupDirectory.getD .null).writeAt 1) &&
          (Encoding.utf8.writes c.toolchain &&
            Encoding.utf8.writes ((c.fragmentsFile.getD .null).writeAt 1)))) := by
    rw [content, Json.indented, toJson, Json.writeAt, Encoding.writes_append, Json.writes_enclose]
    simp [Json.writeFieldsAt, Json.writes_writeString, hpolicy, Json.writeAt]
  rw [hwritten]
  simp only [Bool.and_eq_true, h.templatePath.writes_writeAt_iff,
    h.backupDirectory.writes_writeAt_iff, h.fragmentsFile.writes_writeAt_iff]
  constructor
  · rintro ⟨htemplate, hbackups, htoolchain, hfragments⟩
    exact ⟨htemplate, hbackups, hfragments, htoolchain⟩
  · intro hall
    exact ⟨hall.templatePath, hall.backupDirectory, hall.toolchain, hall.fragmentsFile⟩

/-! ## Files -/

/-- Where a configuration is written before it is moved to its place. -/
def temporary (path : Path) : Path :=
  path.sibling (path.name ++ ".tmp".toText)

/-- The bytes of a configuration's file. -/
def bytes (c : Config) : ByteArray :=
  (Encoding.utf8.bytes c.content)

/-- The temporary file is beside the file, and not the same. -/
theorem temporary_ne (hl : d.locate path = .ok l) (he : path.isEntry = true)
    (hk : d.locate (temporary path) = .ok k) : k ≠ [] ∧ k ≠ l ∧ k.length = l.length := by
  have hlong : ∀ {t : Text}, path.name ++ ".tmp".toText = t → path.name.length + 4 = t.length := by
    rintro t rfl
    rw [List.length_append]
    rfl
  have hup : path.name ++ ".tmp".toText ≠ Path.up := by
    intro h
    have hlength := hlong h
    change path.name.length + 4 = 2 at hlength
    omega
  have hsibling := Disk.locate_sibling hl he hup hk
  have hconcat := Disk.eq_dropLast_concat hl he
  refine ⟨by simp [hsibling], fun hkl => ?_, ?_⟩
  · rw [hsibling, hconcat, List.dropLast_concat, List.append_cancel_left_eq,
      List.singleton_inj] at hkl
    have hlength := hlong hkl
    omega
  · rw [hsibling, hconcat, List.dropLast_concat, List.length_append, List.length_append]
    rfl

/-- No call that saving a configuration makes is refused, whatever is to be written. The last of them
moves a file to the path, which is refused where the path has no name of a file. -/
def Unrefused (d : Disk) (path : Path) : Prop :=
  ∀ content, ∃ d₁ d₂ d', d.makePath path.parent = (d₁, .ok ()) ∧
    d₁.writeFile (temporary path) content = .ok d₂ ∧ d₂.rename (temporary path) path = .ok d'

theorem Unrefused.name_isEmpty (h : Unrefused d path) : ¬ path.name.isEmpty = true := by
  obtain ⟨d₁, d₂, d', -, -, hrenamed⟩ := h .empty
  rw [Path.name_isEmpty_of_isEntry (Disk.isEntry_of_rename hrenamed).2]
  exact Bool.false_ne_true

/-- So it is where the directory is there or can be made, its entries can be changed, and neither a
directory nor a file that cannot be written to is in the way. -/
theorem unrefused_of_names (hmade : d.makePath path.parent = (d₁, .ok ()))
    (hpath : d₁.Names path l) (htemp : d₁.Names (temporary path) k)
    (hfree : ∀ m, d₁.at? l ≠ some (.directory m))
    (hold : d₁.at? k = none ∨ ∃ f, d₁.at? k = some (.file f) ∧ f.mode.grants .write = true) :
    Unrefused d path := by
  intro content
  obtain ⟨m, hm⟩ := htemp.held
  obtain ⟨-, hne, hlen⟩ := temporary_ne hpath.located hpath.entry htemp.located
  -- the temporary file is written, and no directory is among what changes
  obtain ⟨hplain, mode, hwritten⟩ : (∀ m, d₁.at? k ≠ some (.directory m)) ∧ ∃ mode,
      d₁.writeFile (temporary path) content = .ok (d₁.put k (.file ⟨content, mode⟩)) := by
    rcases hold with hnone | ⟨f, hf, hgrants⟩
    · exact ⟨Disk.not_directory_of_none hnone, _,
        Disk.writeFile_missing htemp.located hnone hm⟩
    · exact ⟨Disk.not_directory_of_file hf, _, Disk.writeFile_file htemp.located hf hgrants⟩
  have hkeeps : Disk.KeepsDirectories d₁ (d₁.put k (.file ⟨content, mode⟩)) :=
    (Disk.sameBut_put List.mem_cons_self _).keepsDirectories_of_not hplain
  refine ⟨d₁, _, _, hmade, hwritten,
    Disk.rename_file (htemp.of_keeps hkeeps) (hpath.of_keeps hkeeps) (Disk.at?_put_self _ _ _) ?_
      hne hlen⟩
  intro m
  rw [Disk.at?_put_of_ne _ _ hne.symm]
  exact hfree m

/-- Where no call is refused, a configuration is saved if it can be written. -/
theorem save_of_unrefused (hunrefused : Unrefused d path)
    (hwrites : Encoding.utf8.writes c.content = true) : ∃ d₁ d₂ d',
      d.makePath path.parent = (d₁, .ok ()) ∧ d₁.writeFile (temporary path) c.bytes = .ok d₂ ∧
      d₂.rename (temporary path) path = .ok d' ∧ save d path c = (d', .ok ()) := by
  obtain ⟨d₁, d₂, d', hmade, hwritten, hrenamed⟩ := hunrefused c.bytes
  refine ⟨d₁, d₂, d', hmade, hwritten, hrenamed, ?_⟩
  rw [temporary] at hwritten hrenamed
  rw [bytes] at hwritten
  rw [save, hmade]
  dsimp only
  rw [if_neg hunrefused.name_isEmpty, Encoding.encode_of_writes hwrites]
  dsimp only
  rw [hwritten]
  dsimp only
  rw [hrenamed]

/-- If it cannot be written, an empty file is left behind where it would have been written first. -/
theorem save_of_not_writes (hunrefused : Unrefused d path)
    (hwrites : Encoding.utf8.writes c.content = false) : ∃ d' e m,
      save d path c = (d', .error (.unencodable e)) ∧
      d'.at? ((temporary path).location d.here) = some (.file ⟨.empty, m⟩) := by
  obtain ⟨d₁, d₂, d', hmade, hwritten, hrenamed⟩ := hunrefused .empty
  obtain ⟨e, he⟩ := Encoding.exists_encode_eq_error hwrites
  obtain ⟨k, m, hk, -, hput⟩ := Disk.writeFile_eq_ok hwritten
  have hhere : d₁.here = d.here := by
    have hspared := Disk.spares_makePath (l := []) (d := d) (p := path.parent)
    rw [hmade] at hspared
    exact hspared.keeps.here
  refine ⟨d₂, e, m, ?_, ?_⟩
  · rw [temporary] at hwritten
    rw [save, hmade]
    dsimp only
    rw [if_neg hunrefused.name_isEmpty, he]
    dsimp only
    rw [hwritten]
  · rw [← hhere, ← Disk.locate_eq hk, hput, Disk.at?_put_self]

/-- A file that could be read before it was written to can be read afterwards. -/
theorem grants_of_writeFile {p : Path} {content : ByteArray} {f : File}
    (h : d.writeFile p content = .ok d') (hl : d.locate p = .ok k)
    (hf : d'.at? k = some (.file f))
    (hold : ∀ g, d.at? k = some (.file g) → g.mode.grants .read = true) :
    f.mode.grants .read = true := by
  obtain ⟨k', hk', h⟩ := exists_of_bind_eq_ok h
  rw [hl, Except.ok.injEq] at hk'
  subst hk'
  split at h
  · cases h
  · next g hg =>
    split at h
    · cases h
      rw [Disk.at?_put_self] at hf
      cases hf
      rw [Mode.grants_afterWrite]
      exact hold g hg
    · cases h
  · obtain ⟨m, -, h⟩ := exists_of_bind_eq_ok h
    cases h
    rw [Disk.at?_put_self] at hf
    cases hf
    exact Mode.grants_newFile .read

/-- The file of a configuration after it was saved, and what became of everything else. -/
structure Saved (d : Disk) (path : Path) (content : ByteArray) (d' : Disk) : Prop where
  /-- The file is there, and can be read unless one that cannot was in the way. -/
  read : (∀ g, d.at? ((temporary path).location d.here) = some (.file g) →
    g.mode.grants .read = true) → ∃ f, d'.fileAt path = .ok f ∧ f.content = content
  /-- The temporary file is gone. -/
  moved : d'.at? ((temporary path).location d.here) = none
  /-- Everywhere else there is no new file. -/
  elsewhere : ∀ l f, l ≠ path.location d.here → d'.at? l = some (.file f) →
    d.at? l = some (.file f)

/-- A file is written beside its place and then moved there. -/
theorem saved_of_calls {content : ByteArray} (hmade : d.makePath path.parent = (d₁, .ok ()))
    (hwritten : d₁.writeFile (temporary path) content = .ok d₂)
    (hrenamed : d₂.rename (temporary path) path = .ok d') : Saved d path content d' := by
  have hspares : ∀ l, Disk.Spares l d d₁ := by
    intro l
    have hspared := Disk.spares_makePath (l := l) (d := d) (p := path.parent)
    rwa [hmade] at hspared
  have hadded : ∀ {l f}, d₁.at? l = some (.file f) → d.at? l = some (.file f) := by
    intro l f hf
    have hback := Disk.at?_of_makePath (d := d) (p := path.parent) (l := l) (f := f)
    rw [hmade] at hback
    exact hback hf
  have hhere : d₁.here = d.here := (hspares []).keeps.here
  -- the temporary file is written to
  obtain ⟨k, m, hk, hfree, hput⟩ := Disk.writeFile_eq_ok hwritten
  have hsame : Disk.SameBut [k] d₁ d₂ := hput ▸ Disk.sameBut_put List.mem_cons_self _
  have hkeeps := hsame.keepsDirectories_of_not hfree
  have htemp : d₂.at? k = some (.file ⟨content, m⟩) := by rw [hput, Disk.at?_put_self]
  have hk₂ := Disk.locate_of_keeps hkeeps hk
  -- and moved to its place
  obtain ⟨-, he⟩ := Disk.isEntry_of_rename hrenamed
  obtain ⟨l, hl⟩ := Disk.locate_of_rename hrenamed
  obtain ⟨hroot, hne, -⟩ := temporary_ne hl he hk₂
  obtain ⟨hfree', rfl⟩ := Disk.rename_file_eq_ok hrenamed hk₂ htemp hl hne
  have hlocation : l = path.location d.here := by
    rw [Disk.locate_eq hl, hkeeps.here, hhere]
  have hbeside : k = (temporary path).location d.here := by
    rw [Disk.locate_eq hk, hhere]
  refine ⟨fun hold => ?_, ?_, fun j f hj hf => ?_⟩
  · have hgrants : m.grants .read = true := by
      refine grants_of_writeFile (f := ⟨content, m⟩) hwritten hk htemp fun g hg => hold g ?_
      rw [← hbeside]
      exact hadded hg
    exact ⟨_, Disk.fileAt_moved hl htemp hfree' hgrants, rfl⟩
  · rw [← hbeside]
    exact Disk.at?_moved_old d₂ _ hroot hne
  · rw [← hlocation] at hj
    obtain ⟨hjk, hf⟩ := Disk.at?_of_moved hroot hj hf
    rw [hput, Disk.at?_put_of_ne _ _ hjk] at hf
    exact hadded hf

/-- **What was saved is loaded again.** If the strings of a configuration can be written, no call is
refused, the environment settles nothing, and no temporary file that cannot be read was left beside
it before, the configuration is saved, and loading gives it back; the file that holds it is the only
one that is new, and no temporary file is left behind. -/
theorem load_save (hc : c.IsStorable) (hencodable : c.IsEncodable) (henv : Silent env)
    (hunrefused : Unrefused d path)
    (hold : ∀ g, d.at? ((temporary path).location d.here) = some (.file g) →
      g.mode.grants .read = true) :
    ∃ d', save d path c = (d', .ok ()) ∧ load env d' path = .ok c ∧
      d'.at? ((temporary path).location d.here) = none ∧
      ∀ l f, l ≠ path.location d.here → d'.at? l = some (.file f) → d.at? l = some (.file f) := by
  have hwrites := (writes_content_iff hc).2 hencodable
  obtain ⟨d₁, d₂, d', hmade, hwritten, hrenamed, hsave⟩ := save_of_unrefused hunrefused hwrites
  have hsaved := saved_of_calls hmade hwritten hrenamed
  refine ⟨d', hsave, ?_, hsaved.moved, hsaved.elsewhere⟩
  obtain ⟨f, hf, hcontent⟩ := hsaved.read hold
  have hreads : Reads d' path (.ok c.toJson) :=
    ⟨f, c.content, hf, hcontent ▸ Encoding.decode_bytes hwrites, read_content hc⟩
  have hfields : readFields d' path = .ok (some c.toJson) :=
    readFields_eq_some_iff.2 ⟨_, rfl, hreads⟩
  rw [load, hfields]
  show (ofJson c.toJson >>= fun c => .ok (c.withEnvironment env)) = .ok c
  rw [ofJson_toJson hc]
  exact congrArg Except.ok (henv.withEnvironment c)

/-- A disk without files. -/
def bareDisk : Disk := ⟨[], []⟩

/-- The path of a configuration in a directory that is not there. -/
def barePath : Path := .ofText "d/c.json".toText

theorem unrefused_bareDisk : Unrefused bareDisk barePath := by
  have hmade : (bareDisk.makePath barePath.parent).2 = .ok () :=
    eq_ok_of_toOption (by decide +kernel)
  refine unrefused_of_names (Prod.ext rfl hmade) (l := ["d".toText, "c.json".toText])
    (k := ["d".toText, "c.json.tmp".toText]) ?_ ?_ ?_ ?_
  · exact ⟨eq_ok_of_toOption (by decide +kernel), by decide, Mode.newDirectory,
      eq_ok_of_toOption (by decide +kernel)⟩
  · exact ⟨eq_ok_of_toOption (by decide +kernel), by decide, Mode.newDirectory,
      eq_ok_of_toOption (by decide +kernel)⟩
  · exact Disk.not_directory_of_none (by decide +kernel)
  · exact .inl (by decide +kernel)

theorem not_at?_temporary_bareDisk (g : File) :
    bareDisk.at? ((temporary barePath).location bareDisk.here) ≠ some (.file g) := by
  have hempty : bareDisk.at? ((temporary barePath).location bareDisk.here) = none := by decide
  rw [hempty]
  exact fun h => by cases h

/-- A configuration with a path that does not stand in a file as it is. -/
def quotedConfig : Config :=
  { templatePath := some (.str "a \"b\"\n".toText), retention := 2,
    policy := BackupPolicy.bestEffort.name }

theorem isStorable_quotedConfig : quotedConfig.IsStorable :=
  { retention := by decide
    policy := ⟨.bestEffort, rfl⟩
    templatePath := fun w hw => ⟨_, (Option.some.inj hw).symm, by decide⟩
    backupDirectory := fun w hw => by cases hw
    fragmentsFile := fun w hw => by cases hw
    toolchain := by decide
    short := show (Text.ofNat 2).length ≤ Text.maxDigits by decide }

theorem isEncodable_quotedConfig : quotedConfig.IsEncodable :=
  { templatePath := fun t ht => by cases ht; exact Encoding.writes_toText _
    backupDirectory := fun t ht => by cases ht
    fragmentsFile := fun t ht => by cases ht
    toolchain := Encoding.writes_toText _ }

theorem load_save_quotedConfig :
    quotedConfig.IsStorable ∧ quotedConfig.IsEncodable ∧ Silent bareEnvironment ∧
      Unrefused bareDisk barePath ∧ ∃ d', save bareDisk barePath quotedConfig = (d', .ok ()) ∧
        load bareEnvironment d' barePath = .ok quotedConfig := by
  have henv : Silent bareEnvironment := ⟨rfl, rfl, rfl⟩
  obtain ⟨d', hsave, hload, -⟩ := load_save isStorable_quotedConfig isEncodable_quotedConfig henv
    unrefused_bareDisk fun g hg => absurd hg (not_at?_temporary_bareDisk g)
  exact ⟨isStorable_quotedConfig, isEncodable_quotedConfig, henv, unrefused_bareDisk, d', hsave,
    hload⟩

/-- A configuration with a path that has half of a surrogate pair in it. -/
def halvedConfig : Config :=
  { templatePath := some (.str ("/proj/".toText ++ .lone 0x4ff :: ".gradle".toText)) }

/-- A path without a name. -/
def namelessPath : Path := .ofText ".".toText

/-- What is needed beside calls that are not refused: a configuration with half of a surrogate pair
is not saved, so that it is not what is loaded, and a new file is left behind; and under a path
without a name nothing is saved. -/
theorem not_load_save_halvedConfig :
    (halvedConfig.IsStorable ∧ Silent bareEnvironment ∧ Unrefused bareDisk barePath ∧
      ∃ d' e m, save bareDisk barePath halvedConfig = (d', .error (.unencodable e)) ∧
        load bareEnvironment d' barePath ≠ .ok halvedConfig ∧
        bareDisk.at? ((temporary barePath).location bareDisk.here) = none ∧
        d'.at? ((temporary barePath).location bareDisk.here) = some (.file ⟨.empty, m⟩)) ∧
    quotedConfig.IsStorable ∧ quotedConfig.IsEncodable ∧
      bareDisk.makePath namelessPath.parent = (bareDisk, .ok ()) ∧
      save bareDisk namelessPath quotedConfig = (bareDisk, .error (.nameless namelessPath)) ∧
      load bareEnvironment bareDisk namelessPath ≠ .ok quotedConfig := by
  have hc : halvedConfig.IsStorable :=
    { retention := by decide
      policy := ⟨.strict, rfl⟩
      templatePath := fun w hw => ⟨_, (Option.some.inj hw).symm, by decide⟩
      backupDirectory := fun w hw => by cases hw
      fragmentsFile := fun w hw => by cases hw
      toolchain := by decide
      short := show (Text.ofInt Backups.defaultRetention).length ≤ Text.maxDigits by decide }
  -- where there is nothing to load, that gives a configuration without a path
  have hdefault : ∀ {d p c}, (load bareEnvironment d p).toOption.all (·.templatePath.isNone) = true →
      c.templatePath.isNone = false → load bareEnvironment d p ≠ .ok c := by
    intro d p c hload hpath hsame
    rw [hsame] at hload
    change c.templatePath.isNone = true at hload
    rw [hpath] at hload
    cases hload
  have hwrites : Encoding.utf8.writes halvedConfig.content = false := by
    rw [Bool.eq_false_iff, Ne, writes_content_iff hc]
    intro h
    have hpath := Encoding.writes_utf8_iff.1 (h.templatePath _ rfl) 0x4ff
    exact hpath (by simp)
  obtain ⟨d', e, m, hsave, hleft⟩ := save_of_not_writes unrefused_bareDisk hwrites
  have hload : (load bareEnvironment (save bareDisk barePath halvedConfig).1
      barePath).toOption.all (·.templatePath.isNone) = true := by decide +kernel
  rw [hsave] at hload
  have hmade : bareDisk.makePath namelessPath.parent = (bareDisk, .ok ()) := rfl
  refine ⟨⟨hc, ⟨rfl, rfl, rfl⟩, unrefused_bareDisk, d', e, m, hsave, hdefault hload rfl, by decide,
    hleft⟩, isStorable_quotedConfig, isEncodable_quotedConfig, hmade, ?_,
    hdefault (by decide +kernel) rfl⟩
  rw [save, hmade]
  rfl

end Config

end Graft
