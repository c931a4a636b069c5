import Graft.Proofs.Backup
import Graft.Proofs.Document
import Graft.Proofs.Run.Course
import Graft.Run.World

/-!
# The effects of a run

What a run does to the outside is a snapshot, then a write, then a notification, and it can stop
before each of them. To tell what was done and how it was answered the services are made to keep a
log (`Services.logged`), which changes nothing about the run (`run_logged`).

The discipline of a run (`Disciplined`) holds of every log, whatever the answers were:

> `run_disciplined`: nothing is written that is not backed up, unless text is only added and the
> policy allows it; what is written is valid; and the report says that the file was changed exactly
> if it was.
-/

namespace Graft

/-! ## Logs -/

/-- Something that a run did to the outside, and the answer. -/
inductive Effect where
  /-- A backup was to be taken. -/
  | snapshot (path : Path) (answer : Answer BackupError Backup)
  /-- A content was to be written. -/
  | write (path : Path) (content : Text) (answer : Answer Text Unit)
  /-- Someone was to be told. -/
  | notify (path : Path) (answer : Except Text Unit)

/-- The kinds of effects. -/
inductive Effect.Kind where
  | snapshot
  | write
  | notify
  deriving DecidableEq

namespace Effect

/-- The kind of an effect. -/
def kind : Effect → Kind
  | snapshot .. => .snapshot
  | write .. => .write
  | notify .. => .notify

/-- The path that an effect is about. -/
def path : Effect → Path
  | snapshot path _ => path
  | write path _ _ => path
  | notify path _ => path

end Effect

variable {σ : Type}

/-- The services with a log of what was asked of them and how they answered. -/
def Services.logged (services : Services σ) : Services (σ × List Effect) where
  read := fun path s => services.read path s.1
  snapshot := fun path s =>
    let (t, answer) := services.snapshot path s.1
    ((t, s.2 ++ [.snapshot path answer]), answer)
  write := fun path content s =>
    let (t, answer) := services.write path content s.1
    ((t, s.2 ++ [.write path content answer]), answer)
  notify := services.notify.map fun notify path s =>
    let (t, answer) := notify path s.1
    ((t, s.2 ++ [.notify path answer]), answer)

section Logged

open Run

variable {services : Services σ} {job : Job} {path : Path} {content : Text} {s t : σ}
  {log : List Effect}

theorem snapshot_logged {u : σ × List Effect} {answer : Answer BackupError Backup}
    (h : services.logged.snapshot path (s, log) = (u, answer)) :
    ∃ t, services.snapshot path s = (t, answer) ∧ u = (t, log ++ [.snapshot path answer]) := by
  cases hs : services.snapshot path s with
  | mk t a =>
    simp only [Services.logged, hs, Prod.mk.injEq] at h
    obtain ⟨rfl, rfl⟩ := h
    exact ⟨t, rfl, rfl⟩

theorem write_logged {u : σ × List Effect} {answer : Answer Text Unit}
    (h : services.logged.write path content (s, log) = (u, answer)) :
    ∃ t, services.write path content s = (t, answer) ∧
      u = (t, log ++ [.write path content answer]) := by
  cases hs : services.write path content s with
  | mk t a =>
    simp only [Services.logged, hs, Prod.mk.injEq] at h
    obtain ⟨rfl, rfl⟩ := h
    exact ⟨t, rfl, rfl⟩

/-- Whoever is to be told is told once. -/
theorem announce_logged (services : Services σ) (path : Path) (s : σ) (log : List Effect) :
    ∃ told, announce services.logged path (s, log) =
        (((announce services path s).1, log ++ told), (announce services path s).2) ∧
      (services.notify.isSome = false ∧ told = [] ∨
        services.notify.isSome = true ∧ ∃ answer, told = [.notify path answer]) := by
  unfold announce
  cases hnotify : services.notify with
  | none =>
    refine ⟨[], ?_, .inl ⟨rfl, rfl⟩⟩
    simp [Services.logged, hnotify]
  | some notify =>
    cases hs : notify path s with
    | mk t answer =>
      refine ⟨[.notify path answer], ?_, .inr ⟨rfl, answer, rfl⟩⟩
      simp only [Services.logged, hnotify, Option.map_some, hs]
      cases answer with
      | ok u => rfl
      | error reason => rfl

theorem secure_logged (services : Services σ) (job : Job) (plan : Plan) (path : Path) (s : σ)
    (log : List Effect) : ∃ log', secure services.logged job plan path (s, log) =
      (((secure services job plan path s).1, log'), (secure services job plan path s).2) := by
  unfold secure
  split
  · exact ⟨log, rfl⟩
  · cases hs : services.snapshot path s with
    | mk t answer =>
      refine ⟨log ++ [.snapshot path answer], ?_⟩
      simp only [Services.logged, hs]
      split <;> next heq => cases heq; rfl

theorem deliver_logged (services : Services σ) (job : Job) (path : Path) (content : Text)
    (report : Outcome → Report) (s : σ) (log : List Effect) :
    ∃ log', deliver services.logged job path content report (s, log) =
      (((deliver services job path content report s).1, log'),
        (deliver services job path content report s).2) := by
  unfold deliver
  split
  · exact ⟨log, rfl⟩
  · cases hs : services.write path content s with
    | mk t answer =>
      have hlogged : services.logged.write path content (s, log) =
          ((t, log ++ [.write path content answer]), answer) := by
        simp only [Services.logged, hs]
      rw [hlogged]
      match answer with
      | .error b => exact ⟨_, rfl⟩
      | .ok (.error reason) => exact ⟨_, rfl⟩
      | .ok (.ok u) =>
        obtain ⟨told, htold, -⟩ := announce_logged services path t
          (log ++ [.write path content (.ok (.ok u))])
        refine ⟨log ++ [.write path content (.ok (.ok u))] ++ told, ?_⟩
        dsimp only
        rw [htold]

theorem perform_logged (services : Services σ) (job : Job) (path : Path) (crlf : Bool)
    (plan : Plan) (s : σ) (log : List Effect) :
    ∃ log', perform services.logged job path crlf plan (s, log) =
      (((perform services job path crlf plan s).1, log'),
        (perform services job path crlf plan s).2) := by
  obtain ⟨log', hlog'⟩ := secure_logged services job plan path s log
  unfold perform
  rw [hlog']
  match secure services job plan path s with
  | (t, .error b) => exact ⟨log', rfl⟩
  | (t, .ok (.error e)) => exact ⟨log', rfl⟩
  | (t, .ok (.ok (backups, warnings))) =>
    dsimp only
    split
    · exact ⟨log', rfl⟩
    · exact ⟨log', rfl⟩
    · next text htext =>
      obtain ⟨log'', hlog''⟩ := deliver_logged services job path (Document.serialize crlf text)
        (fun outcome => {
          path, outcome, fragmentCount := job.fragments.fragments.length, states := plan.states
          actions := plan.actions, warnings, backups }) t log'
      refine ⟨log'', ?_⟩
      rw [hlog'']

/-- A log changes nothing about a run. -/
theorem run_logged (services : Services σ) (job : Job) (go : Bool) (path : Path) (s : σ)
    (log : List Effect) : ∃ log', run services.logged job go path (s, log) =
      (((run services job go path s).1, log'), (run services job go path s).2) := by
  unfold run
  split
  · have hread : services.logged.read path (s, log) = services.read path s := rfl
    rw [hread]
    match services.read path s with
    | .error b => exact ⟨log, rfl⟩
    | .ok (.error e) => exact ⟨log, rfl⟩
    | .ok (.ok doc) =>
      dsimp only
      cases Plan.ofText job.fragments job.versions doc.text with
      | error failure => exact ⟨log, rfl⟩
      | ok plan => exact perform_logged services job path doc.crlf plan s log
  · exact ⟨log, rfl⟩

end Logged

/-! ## Worlds in which anything can fail -/

namespace World

/-- Services over a world that reads documents and takes backups as ever, unless `failing` says that
a snapshot fails for reasons of its own; writing and telling do and answer what they like. -/
def servicesWith (backups : Backups)
    (failing : Path → World → Option (World × (Breakdown ⊕ BackupError)))
    (write : Path → Text → World → World × Answer Text Unit)
    (notify : Option (Path → World → World × Except Text Unit)) : Services World where
  read := fun path w => Document.read w.disk path
  snapshot := fun path w =>
    match failing path w with
    | some (w', .inl b) => (w', .error b)
    | some (w', .inr e) => (w', .ok (.error e))
    | none => snapshot backups path w
  write := write
  notify := notify

/-- The backup was stored, with exactly the bytes that the file has in the world. -/
def Copied (backups : Backups) (path : Path) (w : World) (backup : Backup) : Prop :=
  ∃ now d f, backups.store w.disk now path = (d, .ok backup) ∧ w.disk.fileAt path = .ok f ∧
    d.fileAt backup.path = .ok ⟨f.content, .ofNat f.mode⟩

/-- A snapshot that succeeds has copied the file. -/
theorem copied_of_snapshot {backups : Backups} {path : Path} {w w' : World} {backup : Backup}
    {f : File} (hf : w.disk.fileAt path = .ok f)
    (h : snapshot backups path w = (w', .ok (.ok backup))) : Copied backups path w backup := by
  unfold snapshot at h
  split at h
  · cases h
  · dsimp only at h
    cases hsnapshot : backups.snapshot w.disk w.clock.tick.1 path with
    | mk d answer =>
      rw [hsnapshot] at h
      cases h
      obtain ⟨d₁, hstore, -⟩ := Backups.steps_of_snapshot hsnapshot
      exact ⟨_, d₁, f, hstore, hf, Backups.fileAt_of_store hf hstore⟩

/-- So it has where other snapshots are made to fail. -/
theorem copied_of_servicesWith {backups : Backups}
    {failing : Path → World → Option (World × (Breakdown ⊕ BackupError))}
    {write : Path → Text → World → World × Answer Text Unit}
    {notify : Option (Path → World → World × Except Text Unit)} {path : Path} {w w' : World}
    {backup : Backup} {f : File} (hf : w.disk.fileAt path = .ok f)
    (h : (servicesWith backups failing write notify).snapshot path w = (w', .ok (.ok backup))) :
    Copied backups path w backup := by
  unfold servicesWith at h
  dsimp only at h
  split at h
  · cases h
  · cases h
  · exact copied_of_snapshot hf h

end World

/-! ## The discipline -/

/-- What a run may write: a valid text, in the form in which the document came. -/
def Writable (job : Job) (path : Path) (w : World) (content : Text) : Prop :=
  ∃ doc text, Document.read w.disk path = .ok (.ok doc) ∧
    content = Document.serialize doc.crlf text ∧ Plan.Valid job.fragments job.versions text

/-- What a run needs before it may write: a backup of the file as it was, or the leave to do without
one as long as nothing is taken out, and then there is a warning in what it reports. -/
def Secured (backups : Backups) (job : Job) (path : Path) (w : World) (trace : List Effect)
    (result : Except Breakdown Report) : Prop :=
  (∃ backup, .snapshot path (.ok (.ok backup)) ∈ trace ∧ World.Copied backups path w backup) ∨
  ∃ e states, .snapshot path (.ok (.error e)) ∈ trace ∧ job.policy = .bestEffort ∧
    inspect w.disk job path = .ok (.ok states) ∧ Plan.NoneStale job.fragments states ∧
    ∀ r, result = .ok r → .noBackup e ∈ r.warnings

/-- The discipline of a run over the file at a path: how its effects on a world go together with
each other and with its report. -/
structure Disciplined (backups : Backups) (tells : Bool) (job : Job) (go : Bool) (path : Path)
    (w : World) (trace : List Effect) (result : Except Breakdown Report) : Prop where
  /-- There is at most one effect of each kind, none without those before it. -/
  order : trace.map Effect.kind <+: [.snapshot, .write, .notify]
  /-- All effects are about the file. -/
  place : ∀ effect ∈ trace, effect.path = path
  /-- A run that is not meant has no effects. -/
  meant : trace ≠ [] → go = true ∧ job.dryRun = false
  /-- Nothing is written that is not backed up, unless that is allowed. -/
  secured : ∀ {content answer}, .write path content answer ∈ trace →
    Secured backups job path w trace result
  /-- Nothing is written that is not valid. -/
  writable : ∀ {content answer}, .write path content answer ∈ trace → Writable job path w content
  /-- A write that is answered is reported on, whatever the answer. -/
  reported : ∀ {content answer}, .write path content (.ok answer) ∈ trace → ∃ r, result = .ok r
  /-- The report says that the file was changed exactly if it was. -/
  changed : (∃ r, result = .ok r ∧ r.isChanged = true) ↔
    ∃ content, .write path content (.ok (.ok ())) ∈ trace
  /-- Whoever is to be told of a change is told exactly of that. -/
  told : (∃ answer, .notify path answer ∈ trace) ↔
    tells = true ∧ ∃ content, .write path content (.ok (.ok ())) ∈ trace
  /-- Once the file was changed, nothing makes the run a failure. -/
  success : (∃ content, .write path content (.ok (.ok ())) ∈ trace) →
    ∃ r, result = .ok r ∧ r.isSuccess = true

namespace Disciplined

variable {backups : Backups} {tells : Bool} {job : Job} {go : Bool} {path : Path} {w : World}
  {result : Except Breakdown Report}

/-- Where nothing was written, no change is to be reported. -/
theorem changed_of_not {trace : List Effect} (h : ∀ r, result = .ok r → r.isChanged = false)
    (hnone : ∀ content, .write path content (.ok (.ok ())) ∉ trace) :
    (∃ r, result = .ok r ∧ r.isChanged = true) ↔
      ∃ content, .write path content (.ok (.ok ())) ∈ trace := by
  constructor
  · rintro ⟨r, hr, hchanged⟩
    rw [h r hr] at hchanged
    cases hchanged
  · rintro ⟨content, hmem⟩
    exact absurd hmem (hnone content)

/-- A run without effects is disciplined if it changed nothing. -/
theorem nil (h : ∀ r, result = .ok r → r.isChanged = false) :
    Disciplined backups tells job go path w [] result where
  order := List.nil_prefix
  place := fun _ hmem => by cases hmem
  meant := fun hne => absurd rfl hne
  secured := fun hmem => by cases hmem
  writable := fun hmem => by cases hmem
  reported := fun hmem => by cases hmem
  changed := changed_of_not h (by simp)
  told := by simp
  success := by simp

/-- So is one that ends with the snapshot. -/
theorem snapshot {answer : Answer BackupError Backup} (hgo : go = true)
    (hreal : job.dryRun = false) (h : ∀ r, result = .ok r → r.isChanged = false) :
    Disciplined backups tells job go path w [.snapshot path answer] result where
  order := ⟨_, rfl⟩
  place := by
    intro effect hmem
    rw [List.mem_singleton.1 hmem]
    rfl
  meant := fun _ => ⟨hgo, hreal⟩
  secured := fun hmem => by simp at hmem
  writable := fun hmem => by simp at hmem
  reported := fun hmem => by simp at hmem
  changed := changed_of_not h (by simp)
  told := by simp
  success := by simp

/-- So is one that ends with a write that broke down or failed. -/
theorem unwritten {answer : Answer BackupError Backup} {content : Text} {refusal : Answer Text Unit}
    (hgo : go = true) (hreal : job.dryRun = false) (hrefusal : refusal ≠ .ok (.ok ()))
    (hsecured : Secured backups job path w
      [.snapshot path answer, .write path content refusal] result)
    (hwritable : Writable job path w content)
    (hreported : ∀ answer, refusal = .ok answer → ∃ r, result = .ok r)
    (h : ∀ r, result = .ok r → r.isChanged = false) :
    Disciplined backups tells job go path w
      [.snapshot path answer, .write path content refusal] result where
  order := ⟨[.notify], rfl⟩
  place := by simp [Effect.path]
  meant := fun _ => ⟨hgo, hreal⟩
  secured := fun _ => hsecured
  writable := by
    intro content' answer' hmem
    simp only [List.mem_cons, reduceCtorEq, Effect.write.injEq, List.not_mem_nil, or_false,
      false_or] at hmem
    rw [hmem.2.1]
    exact hwritable
  reported := by
    intro content' answer' hmem
    simp only [List.mem_cons, reduceCtorEq, Effect.write.injEq, List.not_mem_nil, or_false,
      false_or] at hmem
    exact hreported answer' hmem.2.2.symm
  changed := changed_of_not h (by simp [hrefusal.symm])
  told := by simp [hrefusal.symm]
  success := by simp [hrefusal.symm]

/-- And so is one that wrote the text and told whoever was to be told. -/
theorem written {answer : Answer BackupError Backup} {content : Text} {told : List Effect}
    {r : Report} (hgo : go = true) (hreal : job.dryRun = false)
    (hsecured : Secured backups job path w
      (.snapshot path answer :: .write path content (.ok (.ok ())) :: told) (.ok r))
    (hwritable : Writable job path w content) (hout : r.outcome = .patched)
    (htold : tells = false ∧ told = [] ∨ tells = true ∧ ∃ answer, told = [.notify path answer]) :
    Disciplined backups tells job go path w
      (.snapshot path answer :: .write path content (.ok (.ok ())) :: told) (.ok r) where
  order := by
    rcases htold with ⟨-, rfl⟩ | ⟨-, answer, rfl⟩
    · exact ⟨[.notify], rfl⟩
    · exact ⟨[], rfl⟩
  place := by
    rcases htold with ⟨-, rfl⟩ | ⟨-, answer, rfl⟩
    · simp [Effect.path]
    · simp [Effect.path]
  meant := fun _ => ⟨hgo, hreal⟩
  secured := fun _ => hsecured
  writable := by
    intro content' answer' hmem
    suffices heq : content' = content by
      rw [heq]
      exact hwritable
    rcases htold with ⟨-, rfl⟩ | ⟨-, answer, rfl⟩
    · simp at hmem
      exact hmem.1
    · simp at hmem
      exact hmem.1
  reported := fun _ => ⟨r, rfl⟩
  changed := by
    constructor
    · intro _
      exact ⟨content, List.mem_cons_of_mem _ List.mem_cons_self⟩
    · intro _
      exact ⟨r, rfl, Report.isChanged_iff.2 hout⟩
  told := by
    rcases htold with ⟨rfl, rfl⟩ | ⟨rfl, answer, rfl⟩
    · simp
    · simp
  success := fun _ => ⟨r, rfl, Report.isSuccess_of_patched hout⟩

end Disciplined

/-- What covers a run in which a snapshot was asked for is what secures it. -/
theorem secured_of_covered {backups : Backups} {job : Job} {path : Path} {w : World} {doc : Document}
    {plan : Plan} {answer : Except BackupError Backup} {trace : List Effect}
    {result : Except Breakdown Report} (hread : Document.read w.disk path = .ok (.ok doc))
    (hplan : Plan.ofText job.fragments job.versions doc.text = .ok plan)
    (hmem : .snapshot path (.ok answer) ∈ trace)
    (hneeds : ∀ e, answer = .error e → Run.needsBackup job plan = false)
    (hcovered : ∀ r, result = .ok r → Run.Covered job plan r answer)
    (hcopied : ∀ backup, answer = .ok backup → World.Copied backups path w backup) :
    Secured backups job path w trace result := by
  cases answer with
  | ok backup => exact .inl ⟨backup, hmem, hcopied backup rfl⟩
  | error e =>
    right
    obtain ⟨hremoves, hpolicy⟩ := Bool.or_eq_false_iff.1 (hneeds e rfl)
    obtain ⟨-, hstates, -⟩ := Plan.ofText_eq_ok hplan
    refine ⟨e, plan.states, hmem, ?_, ?_, ?_, fun r hr => (hcovered r hr).2⟩
    · cases hp : job.policy with
      | strict =>
        rw [hp] at hpolicy
        cases hpolicy
      | bestEffort => rfl
    · rw [inspect, hread]
      dsimp only
      rw [hstates]
      rfl
    · exact (Plan.removes_eq_false_iff hplan).1 hremoves

/-- A report that covers a run tells that it could do without a backup that it does not have. -/
theorem needsBackup_of_covered {job : Job} {plan : Plan} {r : Report}
    {answer : Except BackupError Backup} (h : Run.Covered job plan r answer) :
    ∀ e, answer = .error e → Run.needsBackup job plan = false := by
  rintro e rfl
  exact h.1

/-- Whatever course a run takes, it is disciplined. -/
theorem disciplined_of_course {services : Services World} {backups : Backups} {job : Job}
    {go : Bool} {path : Path} {w w' : World} {doc : Document} {plan : Plan} {trace : List Effect}
    {result : Except Breakdown Report} (hread : Document.read w.disk path = .ok (.ok doc))
    (hplan : Plan.ofText job.fragments job.versions doc.text = .ok plan) (hgo : go = true)
    (hcopied : ∀ u backup, services.snapshot path w = (u, .ok (.ok backup)) →
      World.Copied backups path w backup)
    (h : Run.Course services.logged job path doc.crlf plan (w, []) ((w', trace), result)) :
    Disciplined backups services.notify.isSome job go path w trace result := by
  have hwritable : ∀ text, plan.outcome = .ok (some text) →
      Writable job path w (Document.serialize doc.crlf text) :=
    fun text htext => ⟨doc, text, hread, rfl, (Plan.outcome_eq_some hplan htext).2.2⟩
  generalize hout : ((w', trace), result) = outcome at h
  -- the log has what was asked for so far, and the courses differ in how far they go
  cases h with
  | dry hdry hoc =>
    cases hout
    refine .nil fun r hr => ?_
    cases hr
    exact Report.isChanged_eq_false hoc
  | idle hremoves hadds hoc hstates =>
    cases hout
    refine .nil fun r hr => ?_
    cases hr
    exact Report.isChanged_of_upToDate hoc
  | brokenDown hmeant hsnapshot =>
    obtain ⟨t, -, rfl⟩ := snapshot_logged hsnapshot
    cases hout
    exact .snapshot hgo hmeant.1 fun r hr => by cases hr
  | refused hmeant hsnapshot hoc =>
    obtain ⟨t, -, rfl⟩ := snapshot_logged hsnapshot
    cases hout
    refine .snapshot hgo hmeant.1 fun r hr => ?_
    cases hr
    exact Report.isChanged_of_failed hoc
  | failed hmeant hsnapshot hfailure hoc =>
    obtain ⟨t, -, rfl⟩ := snapshot_logged hsnapshot
    cases hout
    refine .snapshot hgo hmeant.1 fun r hr => ?_
    cases hr
    exact Report.isChanged_of_failed hoc
  | unchanged hmeant hsnapshot hnone hoc hstates =>
    obtain ⟨t, -, rfl⟩ := snapshot_logged hsnapshot
    cases hout
    refine .snapshot hgo hmeant.1 fun r hr => ?_
    cases hr
    exact Report.isChanged_of_upToDate hoc
  | stopped hmeant hsnapshot hneeds htext hwrite =>
    obtain ⟨t, ht, rfl⟩ := snapshot_logged hsnapshot
    obtain ⟨u, -, rfl⟩ := write_logged hwrite
    cases hout
    refine .unwritten hgo hmeant.1 (by simp) ?_ (hwritable _ htext) (fun _ h => by cases h)
      fun r hr => by cases hr
    refine secured_of_covered hread hplan List.mem_cons_self hneeds (fun _ hr => by cases hr) ?_
    rintro backup rfl
    exact hcopied t backup ht
  | unwritten hmeant hsnapshot hcovered htext hwrite hoc =>
    obtain ⟨t, ht, rfl⟩ := snapshot_logged hsnapshot
    obtain ⟨u, -, rfl⟩ := write_logged hwrite
    cases hout
    refine .unwritten hgo hmeant.1 (by simp) ?_ (hwritable _ htext) (fun _ _ => ⟨_, rfl⟩)
      fun r hr => ?_
    · refine secured_of_covered hread hplan List.mem_cons_self (needsBackup_of_covered hcovered)
        (fun r hr => ?_) ?_
      · cases hr
        exact hcovered
      · rintro backup rfl
        exact hcopied t backup ht
    · cases hr
      exact Report.isChanged_of_failed hoc
  | written hmeant hsnapshot hcovered htext hwrite hoc hstates =>
    obtain ⟨t, ht, rfl⟩ := snapshot_logged hsnapshot
    obtain ⟨u, -, rfl⟩ := write_logged hwrite
    obtain ⟨told, htold, hwho⟩ := announce_logged services path u _
    rw [htold] at hout
    cases hout
    refine .written hgo hmeant.1 ?_ (hwritable _ htext) hoc hwho
    refine secured_of_covered hread hplan List.mem_cons_self (needsBackup_of_covered hcovered)
      (fun r hr => ?_) ?_
    · cases hr
      exact hcovered
    · rintro backup rfl
      exact hcopied t backup ht

/-- **A run is disciplined.** Whatever comes of the snapshot, of the write and of the notification:
they are asked for at most once and in this order; nothing is written without a backup that has
the bytes of the file, unless no fragment is stale, the policy allows it and there is a warning; what
is written is valid; and the report says that the file was changed, and whoever is to be told is told
of it, exactly if it was, which nothing makes a failure afterwards. -/
theorem run_disciplined (backups : Backups)
    (failing : Path → World → Option (World × (Breakdown ⊕ BackupError)))
    (write : Path → Text → World → World × Answer Text Unit)
    (notify : Option (Path → World → World × Except Text Unit)) (job : Job) (go : Bool)
    (path : Path) (w : World) :
    ∃ w' trace result,
      run (World.servicesWith backups failing write notify) job go path w = (w', result) ∧
      run (World.servicesWith backups failing write notify).logged job go path (w, []) =
        ((w', trace), result) ∧
      Disciplined backups notify.isSome job go path w trace result := by
  obtain ⟨services, hservices⟩ : ∃ services, services =
    World.servicesWith backups failing write notify := ⟨_, rfl⟩
  rw [← hservices]
  obtain ⟨trace, htrace⟩ := run_logged services job go path w []
  cases hplain : run services job go path w with
  | mk w' result =>
    rw [hplain] at htrace
    refine ⟨w', trace, result, rfl, htrace, ?_⟩
    -- the courses are those of the run that keeps the log, which ends as the plain one does
    rcases run_cases services.logged job go path (w, []) with
      ⟨-, hrun⟩ | ⟨result', hrun, hfails⟩ | ⟨doc, plan, hread, hplan, hgo, hcourse⟩
    · rw [htrace, Prod.mk.injEq, Prod.mk.injEq] at hrun
      obtain ⟨⟨-, rfl⟩, rfl⟩ := hrun
      refine .nil fun r hr => ?_
      cases hr
      rfl
    · rw [htrace, Prod.mk.injEq, Prod.mk.injEq] at hrun
      obtain ⟨⟨-, rfl⟩, rfl⟩ := hrun
      exact .nil fun r hr => (hfails r hr).2
    · have hnotify : services.notify.isSome = notify.isSome := by
        rw [hservices]
        rfl
      have hdoc : Document.read w.disk path = .ok (.ok doc) := by
        rw [hservices] at hread
        exact hread
      obtain ⟨f, content, hf, -, -⟩ := Document.read_eq_ok_iff.1 hdoc
      rw [htrace] at hcourse
      rw [← hnotify]
      refine disciplined_of_course hdoc hplan hgo ?_ hcourse
      intro u backup hsnapshot
      rw [hservices] at hsnapshot
      exact World.copied_of_servicesWith hf hsnapshot

end Graft
