import Graft.Config
import Graft.Proofs.Disk.Frame

/-!
# What loading a configuration comes to

Whatever is in the file of a configuration and in the environment, the configuration that is loaded
can be worked with (`IsSound`): at least one backup is kept, and the policy is one that there is. A
file that cannot be read, or does not hold an object, is as good as none, and so is a value that
makes no sense.

A value of the file comes through `Config.retentionOf` and `Config.policyOf`, one of the environment
through `Config.withEnvironment`, and each of them keeps to what can be worked with. Loading breaks
down all the same on a number of backups that is infinite, which is refused where every other value
is put right. `Breaks` lists what it breaks down on:

> `load_spec`: a configuration is loaded unless there is one of these reasons not to, and it is
> always a sound one.
-/

namespace Graft

namespace Config

variable {env : Environment} {d : Disk} {path : Path} {v : Json} {c : Config} {e : Breakdown}

/-! ## Sound configurations -/

/-- A configuration that can be worked with. -/
structure IsSound (c : Config) : Prop where
  /-- At least one backup is kept. -/
  retention : 1 ≤ c.retention
  /-- The policy is one that there is. -/
  policy : ∃ policy : BackupPolicy, c.policy = policy.name

/-- The key of the number of backups. -/
def retentionKey : Text := "backup_retention".toText

theorem isSound_default : IsSound {} :=
  ⟨by decide, .strict, rfl⟩

/-- The environment settles nothing that cannot be worked with. -/
theorem IsSound.withEnvironment (h : c.IsSound) (env : Environment) :
    (c.withEnvironment env).IsSound := by
  unfold Config.withEnvironment
  cases env.value? Environment.toolchainVariable <;>
    cases env.value? Environment.backupVariable <;> dsimp only <;> split
  -- only the number of backups is among what has to be sound
  all_goals first
    | exact ⟨Int.le_max_left 1 _, h.policy⟩
    | exact ⟨h.retention, h.policy⟩

/-! ## The values of a file -/

theorem one_le_retentionOf {v : Option Json} {n : Int} (h : retentionOf v = .ok n) : 1 ≤ n := by
  unfold retentionOf at h
  split at h
  case h_5 => cases h
  case h_6 t =>
    cases h
    cases Text.toInt? t with
    | none => decide
    | some n => exact Int.le_max_left 1 n
  all_goals
    cases h
    first
      | decide
      | exact Int.le_max_left 1 _

/-- The one number of backups that is not put right. -/
theorem retentionOf_eq_error_iff {v : Option Json} : retentionOf v = .error e ↔
    e = .infiniteRetention ∧ ∃ negative, v = some (.float (.infinite negative)) := by
  constructor
  · intro h
    unfold retentionOf at h
    split at h
    case h_5 negative =>
      cases h
      exact ⟨rfl, negative, rfl⟩
    all_goals cases h
  · rintro ⟨rfl, negative, rfl⟩
    rfl

theorem exists_policyOf (v : Option Json) : ∃ policy : BackupPolicy, policyOf v = policy.name := by
  unfold policyOf
  split
  · next policy _ => exact ⟨policy, rfl⟩
  · exact ⟨.strict, rfl⟩

theorem isSound_ofJson (h : ofJson v = .ok c) : c.IsSound := by
  obtain ⟨n, hn, h⟩ := exists_of_bind_eq_ok h
  cases h
  exact ⟨one_le_retentionOf hn, exists_policyOf _⟩

/-- An infinite number counts as given. -/
theorem field?_eq_infinite_iff {negative : Bool} :
    field? "backup_retention" v = some (.float (.infinite negative)) ↔
      v.get? retentionKey = some (.float (.infinite negative)) := by
  unfold field? retentionKey
  cases v.get? "backup_retention".toText with
  | none => simp
  | some w =>
    rw [Option.bind_some, Option.some.injEq, Json.given?]
    constructor
    · intro h
      split at h
      · exact Option.some.inj h
      · cases h
    · rintro rfl
      rfl

/-- Only objects have keys. -/
theorem exists_fields_of_get? {key : Text} {w : Json} (h : v.get? key = some w) :
    ∃ fields, v = .obj fields := by
  cases v with
  | obj fields => exact ⟨fields, rfl⟩
  | _ => cases h

theorem ofJson_eq_error_iff : ofJson v = .error e ↔
    e = .infiniteRetention ∧
      ∃ negative, v.get? retentionKey = some (.float (.infinite negative)) := by
  rw [← exists_congr fun _ => field?_eq_infinite_iff, ← retentionOf_eq_error_iff]
  unfold ofJson
  cases retentionOf (field? "backup_retention" v) with
  | error e' => simp [bind, Except.bind]
  | ok n => simp [bind, Except.bind, pure, Except.pure]

/-! ## Files -/

/-- The file at a path can be read, and its text reads as `r`. -/
def Reads (d : Disk) (path : Path) (r : Except JsonError Json) : Prop :=
  ∃ f t, d.fileAt path = .ok f ∧ Encoding.decode f.content = some t ∧ Json.read t = r

/-- What loading from a path breaks down on. -/
inductive Breaks (d : Disk) (path : Path) : Breakdown → Prop where
  /-- The file system does not tell whether anything is there. -/
  | unknown {error : OsError} (h : d.look path = .error error) : Breaks d path (.os error)
  /-- The values in the file are nested so deeply that they are not read. -/
  | tooDeep (h : Reads d path (.error .tooDeep)) : Breaks d path .tooDeep
  /-- The file has an infinite number of backups. -/
  | infinite {v : Json} {negative : Bool} (h : Reads d path (.ok v))
      (hinfinite : v.get? retentionKey = some (.float (.infinite negative))) :
      Breaks d path .infiniteRetention

theorem look_of_fileAt {f : File} (h : d.fileAt path = .ok f) :
    d.look path = .ok (some (.file f)) := by
  obtain ⟨l, hl, hf, -⟩ := Disk.fileAt_eq_ok_iff.1 h
  unfold Disk.look
  rw [hl, ← hf]

/-- A file is read in one way. -/
theorem Reads.unique {r s : Except JsonError Json} (h : Reads d path r) (h' : Reads d path s) :
    r = s := by
  obtain ⟨f, t, hf, ht, rfl⟩ := h
  obtain ⟨f', t', hf', ht', rfl⟩ := h'
  rw [hf, Except.ok.injEq] at hf'
  subst hf'
  rw [ht, Option.some.injEq] at ht'
  rw [ht']

/-- A file that is read is one that the file system tells of. -/
theorem not_reads_of_look {error : OsError} (h : d.look path = .error error)
    (r : Except JsonError Json) : ¬ Reads d path r := by
  rintro ⟨f, -, hf, -⟩
  rw [look_of_fileAt hf] at h
  cases h

/-- A value is read from a file in one way only, and only an infinite number in it does harm. -/
theorem not_breaks_of_reads (h : Reads d path (.ok v))
    (hfinite : ∀ negative, v.get? retentionKey ≠ some (.float (.infinite negative))) :
    ¬ Breaks d path e := by
  rintro (hlook | htooDeep | ⟨h', hinfinite⟩)
  · exact not_reads_of_look hlook _ h
  · cases h.unique htooDeep
  · cases h.unique h'
    exact hfinite _ hinfinite

theorem readFields_eq_error_iff : readFields d path = .error e ↔
    (∃ error, d.look path = .error error ∧ e = .os error) ∨
      (Reads d path (.error .tooDeep) ∧ e = .tooDeep) := by
  cases hlook : d.look path with
  | error error =>
    have hnot := not_reads_of_look hlook (.error .tooDeep)
    simp [readFields, hlook, hnot, eq_comm]
  | ok node? =>
    unfold readFields Reads
    cases d.fileAt path with
    | error error => simp [hlook]
    | ok f =>
      cases hdecode : Encoding.decode f.content with
      | none => simp [hlook, hdecode]
      | some t =>
        rcases hread : Json.read t with (_ | _ | _) | (_ | _ | _ | _ | _ | _ | _) <;>
          simp [hlook, hdecode, hread, eq_comm]

theorem readFields_eq_some_iff : readFields d path = .ok (some v) ↔
    ∃ fields, v = .obj fields ∧ Reads d path (.ok (.obj fields)) := by
  cases hlook : d.look path with
  | error error =>
    have hnot := fun fields => not_reads_of_look hlook (.ok (.obj fields))
    simp [readFields, hlook, hnot]
  | ok node? =>
    unfold readFields Reads
    cases d.fileAt path with
    | error error => simp [hlook]
    | ok f =>
      cases hdecode : Encoding.decode f.content with
      | none => simp [hlook, hdecode]
      | some t =>
        rcases hread : Json.read t with (_ | _ | _) | (_ | _ | _ | _ | _ | _ | fields) <;>
          simp [hlook, hdecode, hread, eq_comm]

/-! ## Loading -/

/-- Loading fails with the file, or with the object in it. -/
theorem load_eq_error_iff : load env d path = .error e ↔
    readFields d path = .error e ∨ ∃ v, readFields d path = .ok (some v) ∧ ofJson v = .error e := by
  unfold load
  cases hfields : readFields d path with
  | error e' => simp [bind, Except.bind]
  | ok found =>
    cases found with
    | none => simp [bind, Except.bind, pure, Except.pure]
    | some v =>
      cases hv : ofJson v with
      | error e' => simp [bind, Except.bind, hv]
      | ok c => simp [bind, Except.bind, pure, Except.pure, hv]

theorem breaks_iff : Breaks d path e ↔ load env d path = .error e := by
  rw [load_eq_error_iff, readFields_eq_error_iff]
  constructor
  · rintro (h | h | ⟨h, hinfinite⟩)
    · exact .inl (.inl ⟨_, h, rfl⟩)
    · exact .inl (.inr ⟨h, rfl⟩)
    · obtain ⟨fields, rfl⟩ := exists_fields_of_get? hinfinite
      exact .inr ⟨_, readFields_eq_some_iff.2 ⟨fields, rfl, h⟩,
        ofJson_eq_error_iff.2 ⟨rfl, _, hinfinite⟩⟩
  · rintro ((⟨error, h, rfl⟩ | ⟨h, rfl⟩) | ⟨v, hv, herror⟩)
    · exact .unknown h
    · exact .tooDeep h
    · obtain ⟨fields, rfl, h⟩ := readFields_eq_some_iff.1 hv
      obtain ⟨rfl, negative, hinfinite⟩ := ofJson_eq_error_iff.1 herror
      exact .infinite h hinfinite

theorem isSound_of_load (h : load env d path = .ok c) : c.IsSound := by
  obtain ⟨found, -, h⟩ := exists_of_bind_eq_ok h
  cases found with
  | none =>
    cases h
    exact isSound_default.withEnvironment env
  | some v =>
    obtain ⟨c', hc', h⟩ := exists_of_bind_eq_ok h
    cases h
    exact (isSound_ofJson hc').withEnvironment env

/-- **What loading comes to.** Unless there is one of the reasons listed, a configuration is loaded,
whatever the file holds and whatever is in the environment, and it is a sound one; if there is one,
loading breaks down for that reason. -/
theorem load_spec (env : Environment) (d : Disk) (path : Path) :
    ((∀ e, ¬ Breaks d path e) → ∃ c, load env d path = .ok c ∧ c.IsSound) ∧
      ∀ e, Breaks d path e ↔ load env d path = .error e := by
  refine ⟨fun h => ?_, fun e => breaks_iff⟩
  cases hload : load env d path with
  | error e => exact absurd (breaks_iff.2 hload) (h e)
  | ok c => exact ⟨c, rfl, isSound_of_load hload⟩

/-- A configuration that settles only how many backups are kept. -/
def retentionText (value : String) : Text :=
  ("\x7b\"backup_retention\": " ++ value ++ "\x7d").toText

/-- A disk with one file, which is this configuration. -/
def retentionDisk (value : String) : Disk :=
  ⟨[(.of ["c.json".toText], .file ⟨Encoding.utf8.bytes (retentionText value), Mode.newFile⟩)],
    []⟩

/-- An environment without variables. -/
def bareEnvironment : Environment :=
  { values := [], home := [] }

theorem reads_retentionDisk {value : String} {r : Except JsonError Json}
    (h : Json.read (retentionText value) = r) :
    Reads (retentionDisk value) ⟨.here, ["c.json".toText]⟩ r := by
  have hl : (retentionDisk value).locate ⟨.here, ["c.json".toText]⟩ = .ok ["c.json".toText] :=
    Disk.locate_eq_ok_iff.2 ⟨by decide, by decide +kernel, fun _ => rfl, rfl⟩
  have hf : (retentionDisk value).fileAt ⟨.here, ["c.json".toText]⟩ =
      .ok ⟨Encoding.utf8.bytes (retentionText value), Mode.newFile⟩ :=
    Disk.fileAt_eq_ok_iff.2 ⟨_, hl, rfl, Mode.grants_newFile .read⟩
  exact ⟨_, _, hf, Encoding.decode_bytes (Encoding.writes_toText _), h⟩

/-- What the object in a text has under a key. -/
theorem exists_of_any {t : Text} (key : Text) (p : Json → Bool)
    (h : ((Json.read t).toOption.bind (Json.get? key)).any p = true) :
    ∃ v w, Json.read t = .ok v ∧ v.get? key = some w ∧ p w = true := by
  obtain ⟨w, hw, hp⟩ := (Option.any_eq_true _ _).1 h
  obtain ⟨v, hv, hw⟩ := Option.bind_eq_some_iff.1 hw
  exact ⟨v, w, eq_ok_of_toOption hv, hw, hp⟩

/-- A number of backups that is no number does no harm. -/
theorem load_spec_many :
    (∀ e, ¬ Breaks (retentionDisk "\"many\"") ⟨.here, ["c.json".toText]⟩ e) ∧
      ∃ c, load bareEnvironment (retentionDisk "\"many\"") ⟨.here, ["c.json".toText]⟩ = .ok c ∧
        c.IsSound := by
  obtain ⟨v, w, hv, hw, hstring⟩ :=
    exists_of_any retentionKey (·.str?.isSome)
      (show ((Json.read (retentionText "\"many\"")).toOption.bind _).any _ = true by decide +kernel)
  have hnot : ∀ e, ¬ Breaks (retentionDisk "\"many\"") ⟨.here, ["c.json".toText]⟩ e := by
    refine fun e => not_breaks_of_reads (reads_retentionDisk hv) ?_
    intro negative hinfinite
    rw [hw, Option.some.injEq] at hinfinite
    subst hinfinite
    cases hstring
  exact ⟨hnot, (load_spec _ _ _).1 hnot⟩

/-- An infinite number of backups keeps everything else from being loaded. -/
theorem load_infinity :
    load bareEnvironment (retentionDisk "Infinity") ⟨.here, ["c.json".toText]⟩ =
      .error .infiniteRetention := by
  obtain ⟨v, w, hv, hw, hinfinite⟩ :=
    exists_of_any retentionKey (· matches .float (.infinite _))
      (show ((Json.read (retentionText "Infinity")).toOption.bind _).any _ = true by decide +kernel)
  have hread := reads_retentionDisk hv
  split at hinfinite
  · exact breaks_iff.1 (.infinite hread hw)
  · cases hinfinite

end Config

end Graft
