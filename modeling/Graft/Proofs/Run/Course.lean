import Graft.Proofs.Plan
import Graft.Run

/-!
# The courses of a run

A run that has a plan takes one of nine courses, and `Course` lists them: what it asked of the
outside, in which order and with which answers, the state it leaves, and how it ended. A run without
a plan asks for nothing but the document.

> `run_cases`: every run is skipped, fails for want of a plan, or takes one of the courses.

What is proved of runs elsewhere is proved by going through these courses, or through the three of
them that can end in a success (`Course.of_success`).
-/

namespace Graft

/-! ## Outcomes -/

theorem Failure.kind_ne_none (failure : Failure) : failure.kind ≠ .none := by
  cases failure with
  | unread e => cases e <;> exact fun h => by cases h
  | _ => exact fun h => by cases h

namespace Report

variable {r : Report} {failure : Failure}

theorem isChanged_iff : r.isChanged = true ↔ r.outcome = .patched := by
  simp [isChanged]

theorem isChanged_eq_false (h : r.outcome ≠ .patched) : r.isChanged = false := by
  simpa [isChanged] using h

theorem isChanged_of_failed (h : r.outcome = .failed failure) : r.isChanged = false := by
  refine isChanged_eq_false ?_
  rw [h]
  simp

theorem isChanged_of_upToDate (h : r.outcome = .upToDate) : r.isChanged = false := by
  refine isChanged_eq_false ?_
  rw [h]
  simp

theorem isSuccess_of_failed (h : r.outcome = .failed failure) : r.isSuccess = false := by
  simpa [isSuccess, kind, h] using failure.kind_ne_none

theorem isSuccess_of_upToDate (h : r.outcome = .upToDate) : r.isSuccess = true := by
  simp [isSuccess, kind, h]

theorem isSuccess_of_patched (h : r.outcome = .patched) : r.isSuccess = true := by
  simp [isSuccess, kind, h]

end Report

namespace Run

variable {σ : Type}

/-! ## Courses -/

/-- What the answer to the call for a backup means for a report: the backup is in it, or there is a
warning in it, and the job can do without. -/
def Covered (job : Job) (plan : Plan) (r : Report) : Except BackupError Backup → Prop
  | .ok backup => backup ∈ r.backups
  | .error e => needsBackup job plan = false ∧ .noBackup e ∈ r.warnings

/-- There is something to do, and it is to be written. -/
def Meant (job : Job) (plan : Plan) : Prop :=
  job.dryRun = false ∧ (plan.removes || plan.adds) = true

/-- The courses that a run with a plan can take from a state, each with the state and the report
that it ends in. -/
inductive Course (services : Services σ) (job : Job) (path : Path) (crlf : Bool) (plan : Plan)
    (s : σ) : σ × Except Breakdown Report → Prop
  /-- Nothing is to be written. -/
  | dry {r : Report} (hdry : job.dryRun = true) (hout : r.outcome ≠ .patched) :
      Course services job path crlf plan s (s, .ok r)
  /-- There is nothing to do. -/
  | idle {r : Report} (hremoves : plan.removes = false) (hadds : plan.adds = false)
      (hout : r.outcome = .upToDate) (hstates : r.states = plan.states) :
      Course services job path crlf plan s (s, .ok r)
  /-- The call for a backup breaks down. -/
  | brokenDown {t : σ} {b : Breakdown} (hmeant : Meant job plan)
      (hsnapshot : services.snapshot path s = (t, .error b)) :
      Course services job path crlf plan s (t, .error b)
  /-- There is no backup, and the job cannot do without. -/
  | refused {t : σ} {e : BackupError} {r : Report} (hmeant : Meant job plan)
      (hsnapshot : services.snapshot path s = (t, .ok (.error e)))
      (hout : r.outcome = .failed (.noBackup e)) : Course services job path crlf plan s (t, .ok r)
  /-- The plan fails. -/
  | failed {t : σ} {answer : Except BackupError Backup} {failure : Failure} {r : Report}
      (hmeant : Meant job plan) (hsnapshot : services.snapshot path s = (t, .ok answer))
      (hplan : plan.outcome = .error failure) (hout : r.outcome = .failed failure) :
      Course services job path crlf plan s (t, .ok r)
  /-- The text comes out as it was. -/
  | unchanged {t : σ} {answer : Except BackupError Backup} {r : Report}
      (hmeant : Meant job plan) (hsnapshot : services.snapshot path s = (t, .ok answer))
      (hplan : plan.outcome = .ok none) (hout : r.outcome = .upToDate)
      (hstates : r.states = plan.states) : Course services job path crlf plan s (t, .ok r)
  /-- The call to write the new text breaks down. -/
  | stopped {t u : σ} {b : Breakdown} {answer : Except BackupError Backup} {text : Text}
      (hmeant : Meant job plan) (hsnapshot : services.snapshot path s = (t, .ok answer))
      (hneeds : ∀ e, answer = .error e → needsBackup job plan = false)
      (hplan : plan.outcome = .ok (some text))
      (hwrite : services.write path (Document.serialize crlf text) t = (u, .error b)) :
      Course services job path crlf plan s (u, .error b)
  /-- The new text cannot be written. -/
  | unwritten {t u : σ} {answer : Except BackupError Backup} {text reason : Text} {r : Report}
      (hmeant : Meant job plan) (hsnapshot : services.snapshot path s = (t, .ok answer))
      (hcovered : Covered job plan r answer) (hplan : plan.outcome = .ok (some text))
      (hwrite : services.write path (Document.serialize crlf text) t = (u, .ok (.error reason)))
      (hout : r.outcome = .failed (.unwritten reason)) :
      Course services job path crlf plan s (u, .ok r)
  /-- The new text is written, and told of. -/
  | written {t u : σ} {answer : Except BackupError Backup} {text : Text} {r : Report}
      (hmeant : Meant job plan) (hsnapshot : services.snapshot path s = (t, .ok answer))
      (hcovered : Covered job plan r answer) (hplan : plan.outcome = .ok (some text))
      (hwrite : services.write path (Document.serialize crlf text) t = (u, .ok (.ok ())))
      (hout : r.outcome = .patched) (hstates : r.states = plan.states) :
      Course services job path crlf plan s ((announce services path u).1, .ok r)

variable {services : Services σ} {job : Job} {path : Path} {crlf : Bool} {plan : Plan} {s : σ}

/-- Nothing is written in a dry run. -/
theorem outcome_of_dry (hdry : job.dryRun = true) :
    ∃ r, perform services job path crlf plan s = (s, .ok r) ∧ r.outcome ≠ .patched := by
  unfold perform secure
  rw [hdry]
  simp only [Bool.true_or, if_true]
  split
  · exact ⟨_, rfl, fun h => by cases h⟩
  · exact ⟨_, rfl, fun h => by cases h⟩
  · unfold deliver
    rw [hdry]
    exact ⟨_, rfl, fun h => by cases h⟩

/-- Once there is a backup or none is needed, the plan decides. -/
theorem perform_covered {t : σ} {answer : Except BackupError Backup} {cover : Cover}
    (hmeant : Meant job plan) (hsnapshot : services.snapshot path s = (t, .ok answer))
    (hsecure : secure services job plan path s = (t, .ok (.ok cover)))
    (hcover : ∀ r : Report, r.backups = cover.1 → cover.2 ⊆ r.warnings → Covered job plan r answer) :
    Course services job path crlf plan s (perform services job path crlf plan s) := by
  obtain ⟨backups, warnings⟩ := cover
  unfold perform
  rw [hsecure]
  dsimp only
  split
  · next failure hplan => exact .failed hmeant hsnapshot hplan rfl
  · next hplan => exact .unchanged hmeant hsnapshot hplan rfl rfl
  · next text hplan =>
    unfold deliver
    rw [hmeant.1, if_neg (by simp)]
    dsimp only
    split
    · next u b hwrite =>
      refine .stopped hmeant hsnapshot ?_ hplan hwrite
      rintro e rfl
      exact (hcover { path, outcome := .upToDate, backups, warnings } rfl
        (List.Subset.refl _)).1
    · next u reason hwrite =>
      refine .unwritten hmeant hsnapshot ?_ hplan hwrite rfl
      exact hcover _ rfl (List.Subset.refl _)
    · next u hwrite =>
      refine .written hmeant hsnapshot ?_ hplan hwrite rfl rfl
      exact hcover _ rfl (List.subset_append_left _ _)

/-- Where something is to be written, the backup is what is asked for first, and the answer decides
how the run goes on. -/
theorem perform_meant (hmeant : Meant job plan) :
    Course services job path crlf plan s (perform services job path crlf plan s) := by
  have hask : ¬ (job.dryRun || !(plan.removes || plan.adds)) = true := by
    simp [hmeant.1, hmeant.2]
  match hsnapshot : services.snapshot path s with
  | (t, .error b) =>
    have hsecure : secure services job plan path s = (t, .error b) := by
      rw [secure, if_neg hask, hsnapshot]
    unfold perform
    rw [hsecure]
    exact .brokenDown hmeant hsnapshot
  | (t, .ok (.ok backup)) =>
    have hsecure : secure services job plan path s = (t, .ok (.ok ([backup], []))) := by
      rw [secure, if_neg hask, hsnapshot]
    refine perform_covered hmeant hsnapshot hsecure ?_
    intro r hbackups _
    show backup ∈ r.backups
    rw [hbackups]
    exact List.mem_singleton_self backup
  | (t, .ok (.error e)) =>
    cases hneeds : needsBackup job plan with
    | true =>
      have hsecure : secure services job plan path s = (t, .ok (.error e)) := by
        rw [secure, if_neg hask, hsnapshot]
        simp [hneeds]
      unfold perform
      rw [hsecure]
      exact .refused hmeant hsnapshot rfl
    | false =>
      have hsecure : secure services job plan path s = (t, .ok (.ok ([], [.noBackup e]))) := by
        rw [secure, if_neg hask, hsnapshot]
        simp [hneeds]
      refine perform_covered hmeant hsnapshot hsecure ?_
      intro r _ hwarnings
      exact ⟨hneeds, hwarnings List.mem_cons_self⟩

/-- A plan is carried out in one of the courses. -/
theorem perform_course
    (hidle : plan.removes = false → plan.adds = false → plan.outcome = .ok none) :
    Course services job path crlf plan s (perform services job path crlf plan s) := by
  cases hdry : job.dryRun with
  | true =>
    obtain ⟨r, hr, hout⟩ : ∃ r, perform services job path crlf plan s = (s, .ok r) ∧
        r.outcome ≠ .patched := outcome_of_dry hdry
    rw [hr]
    exact .dry hdry hout
  | false =>
    cases hneed : plan.removes || plan.adds with
    | false =>
      obtain ⟨hremoves, hadds⟩ := Bool.or_eq_false_iff.1 hneed
      have hsecure : secure services job plan path s = (s, .ok (.ok ([], []))) := by
        rw [secure, if_pos (by simp [hneed])]
      unfold perform
      rw [hsecure]
      dsimp only
      rw [hidle hremoves hadds]
      exact .idle hremoves hadds rfl rfl
    | true => exact perform_meant ⟨hdry, hneed⟩

/-- A course that ends in a success is one of three: there was nothing to do, or the text came out
as it was, or the new text was written. -/
theorem Course.of_success {t : σ} {r : Report}
    (h : Course services job path crlf plan s (t, .ok r)) (hreal : job.dryRun = false)
    (hsuccess : r.isSuccess = true) : r.states = plan.states ∧
      (r.isChanged = false ∧ t = s ∧ plan.removes = false ∧ plan.adds = false ∨
        r.isChanged = false ∧ plan.outcome = .ok none ∧
          (∃ answer, services.snapshot path s = (t, .ok answer)) ∨
        r.isChanged = true ∧ ∃ answer text u v, services.snapshot path s = (u, .ok answer) ∧
          plan.outcome = .ok (some text) ∧
          services.write path (Document.serialize crlf text) u = (v, .ok (.ok ())) ∧
          t = (announce services path v).1) := by
  have hfailed : ∀ {failure}, r.outcome ≠ .failed failure := by
    intro failure hout
    rw [Report.isSuccess_of_failed hout] at hsuccess
    cases hsuccess
  generalize hend : (t, Except.ok r) = outcome at h
  cases h with
  | dry hdry hout =>
    rw [hreal] at hdry
    cases hdry
  | idle hremoves hadds hout hstates =>
    cases hend
    exact ⟨hstates, .inl ⟨Report.isChanged_of_upToDate hout, rfl, hremoves, hadds⟩⟩
  | brokenDown hmeant hsnapshot => cases hend
  | refused hmeant hsnapshot hout =>
    cases hend
    exact absurd hout hfailed
  | failed hmeant hsnapshot hfailure hout =>
    cases hend
    exact absurd hout hfailed
  | unchanged hmeant hsnapshot hnone hout hstates =>
    cases hend
    exact ⟨hstates, .inr (.inl ⟨Report.isChanged_of_upToDate hout, hnone, _, hsnapshot⟩)⟩
  | stopped hmeant hsnapshot hneeds htext hwrite => cases hend
  | unwritten hmeant hsnapshot hcovered htext hwrite hout =>
    cases hend
    exact absurd hout hfailed
  | written hmeant hsnapshot hcovered htext hwrite hout hstates =>
    cases hend
    exact ⟨hstates, .inr (.inr ⟨Report.isChanged_iff.2 hout, _, _, _, _, hsnapshot, htext, hwrite,
      rfl⟩)⟩

end Run

open Run

variable {σ : Type}

/-- Every run is skipped, fails for want of a plan, or takes one of the courses. -/
theorem run_cases (services : Services σ) (job : Job) (go : Bool) (path : Path) (s : σ) :
    (go = false ∧ run services job go path s = (s, .ok (.ofSkipped path))) ∨
    (∃ result, run services job go path s = (s, result) ∧
      ∀ r, result = .ok r → r.isSuccess = false ∧ r.isChanged = false) ∨
    ∃ doc plan, services.read path s = .ok (.ok doc) ∧
      Plan.ofText job.fragments job.versions doc.text = .ok plan ∧ go = true ∧
      Course services job path doc.crlf plan s (run services job go path s) := by
  cases go with
  | false => exact .inl ⟨rfl, rfl⟩
  | true =>
    right
    unfold run
    rw [if_pos rfl]
    split
    · next b hread => exact .inl ⟨_, rfl, fun r hr => by cases hr⟩
    · next e hread =>
      refine .inl ⟨_, rfl, fun r hr => ?_⟩
      cases hr
      exact ⟨Report.isSuccess_of_failed rfl, rfl⟩
    · next doc hread =>
      split
      · next failure hplan =>
        refine .inl ⟨_, rfl, fun r hr => ?_⟩
        cases hr
        exact ⟨Report.isSuccess_of_failed rfl, rfl⟩
      · next plan hplan =>
        exact .inr ⟨doc, plan, hread, hplan, rfl, perform_course (Plan.outcome_of_idle hplan)⟩

end Graft
