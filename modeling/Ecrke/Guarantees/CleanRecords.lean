import Ecrke.Api.Deps
import Ecrke.Pipeline.Footprints
import Ecrke.Pipeline.RunHistory

/-!
# Structural redaction and what is persisted

`redactJson` reaches every string which is a value and no key.  The keys which the program writes
are names of its own, so the states of the checkpoints and the evidence of the audit rows are free
of secrets all the same, whatever executions have written them.

* `CleanWrite`, `RecordsClean` -- a write and tables without a secret in a state or in evidence.
* `CleanMoment` -- a step which keeps the records clean.
* `RecordJob`, `recordJob` -- what writes records: the tasks, the flow and the in-process runner.
* `redactJson_complete` -- the strings of redacted values, and the records of every history.
-/

namespace Ecrke

open Durable

/-! ## Records -/

/-- The states of the checkpoints and the evidence of the audit rows are clean. -/
structure RecordsClean (u : Unicode) (t : Tables) : Prop where
  states : ∀ row ∈ t.checkpoints, ∀ state, row.state = some state → state.Clean u
  evidence : ∀ row ∈ t.auditTrace, row.Clean u

/-- A write which brings no secret into a state or into evidence. -/
def CleanWrite (u : Unicode) : Write → Prop
  | .insertAuditTrace row => row.Clean u
  | .insertCheckpoint row => ∀ state, row.state = some state → state.Clean u
  | .updateCheckpoint _ state => ∀ value, state = some value → value.Clean u
  | _ => True

section Writes

variable {u : Unicode} {t : Tables} {writes : List Write}

theorem RecordsClean.same {t' : Tables} (h : RecordsClean u t)
    (hCheckpoints : t'.checkpoints = t.checkpoints) (hAudits : t'.auditTrace = t.auditTrace) :
    RecordsClean u t' :=
  ⟨hCheckpoints ▸ h.states, hAudits ▸ h.evidence⟩

theorem RecordsClean.effect (h : RecordsClean u t) {write : Write} (hWrite : CleanWrite u write) :
    RecordsClean u (write.effect t) := by
  cases write with
  | insertAuditTrace row =>
      refine ⟨h.states, fun other hOther => ?_⟩
      rcases List.mem_append.mp hOther with hOld | hNew
      · exact h.evidence other hOld
      · obtain rfl := List.mem_singleton.mp hNew
        exact hWrite
  | insertCheckpoint row =>
      refine ⟨fun other hOther => ?_, h.evidence⟩
      rcases List.mem_append.mp hOther with hOld | hNew
      · exact h.states other hOld
      · obtain rfl := List.mem_singleton.mp hNew
        exact hWrite
  | updateCheckpoint id state =>
      refine ⟨fun other hOther => ?_, h.evidence⟩
      rcases mem_modifyRow.mp hOther with ⟨old, hOld, -, rfl⟩ | ⟨hOld, -⟩
      · exact hWrite
      · exact h.states other hOld
  | _ => exact h.same rfl rfl

theorem RecordsClean.after (h : RecordsClean u t) (hWrites : ∀ write ∈ writes, CleanWrite u write) :
    RecordsClean u (t.after writes) := by
  induction writes generalizing t with
  | nil => exact h
  | cons write rest ih =>
      rw [Tables.after_cons]
      exact ih (h.effect (hWrites write (List.mem_cons_self ..)))
        fun other hOther => hWrites other (List.mem_cons_of_mem _ hOther)

/-- A write which is left out when nothing has changed. -/
theorem cleanWrite_unless {c : Prop} [Decidable c] {write : Write} (h : CleanWrite u write) :
    ∀ other ∈ (if c then [] else [write]), CleanWrite u other := by
  intro other hOther
  split at hOther
  · cases hOther
  · obtain rfl := List.mem_singleton.mp hOther
    exact h

theorem cleanWrite_merged {merged : Merged} : ∀ write ∈ merged.writes, CleanWrite u write := by
  unfold Merged.writes
  cases merged.loaded with
  | none =>
      intro write hWrite
      obtain rfl := List.mem_singleton.mp hWrite
      trivial
  | some loaded => exact cleanWrite_unless trivial

/-- The transactions of the pipeline bring no secret into a record. -/
theorem Transaction.clean (h : Transaction u writes) : ∀ write ∈ writes, CleanWrite u write := by
  cases h with
  | sourced row audit hAudit hClean | contradicted row audit hAudit hClean =>
      rintro write (_ | ⟨_, _ | ⟨_, ⟨⟩⟩⟩)
      · exact hClean
      · trivial
  | stored rows status hStatus =>
      intro write hWrite
      rcases List.mem_append.mp hWrite with hRow | hLast
      · obtain ⟨row, -, rfl⟩ := List.mem_map.mp hRow
        trivial
      · rcases hStatus with rfl | ⟨id, value, rfl⟩
        · cases hLast
        · obtain rfl := List.mem_singleton.mp hLast
          trivial
  | drafted statements links =>
      intro write hWrite
      rcases List.mem_append.mp hWrite with hRow | hRow <;>
        obtain ⟨row, -, rfl⟩ := List.mem_map.mp hRow <;> trivial
  | judged audit link merged hAudit hClean =>
      intro write hWrite
      rcases List.mem_append.mp hWrite with hRow | hMerged
      · rcases hRow with _ | ⟨_, _ | ⟨_, ⟨⟩⟩⟩
        · exact hClean
        · trivial
      · exact cleanWrite_merged write hMerged
  | found row rows =>
      intro write hWrite
      rcases List.mem_cons.mp hWrite with rfl | hRow
      · trivial
      · obtain ⟨link, -, rfl⟩ := List.mem_map.mp hRow
        trivial
  | concluded rows hRows hClean =>
      intro write hWrite
      rcases List.mem_append.mp hWrite with hFirst | hEvidence
      · rcases List.mem_append.mp hFirst with hAudit | hConclusion
        · obtain ⟨row, hRow, rfl⟩ := List.mem_map.mp hAudit
          exact hClean row hRow
        · obtain ⟨row, -, rfl⟩ := List.mem_map.mp hConclusion
          trivial
      · obtain ⟨row, -, hLink⟩ := List.mem_flatMap.mp hEvidence
        obtain ⟨link, -, rfl⟩ := List.mem_map.mp hLink
        trivial
  | saved row hClean | resaved id state hClean =>
      intro write hWrite
      obtain rfl := List.mem_singleton.mp hWrite
      exact hClean
  | nothing => simp
  | updated id changes hChanges =>
      intro write hWrite
      obtain rfl := List.mem_singleton.mp hWrite
      trivial

/-- The record of a failure has no evidence. -/
theorem cleanWrite_failure {run : Run} {audit : AuditTrace} (h : audit.evidence = none) :
    ∀ write ∈ failureWrites run audit, CleanWrite u write := by
  intro write hWrite
  rcases List.mem_append.mp hWrite with hRun | hAudit
  · have hUpdates : ∀ other ∈ run.updates { run with status := .failed }, CleanWrite u other :=
      @cleanWrite_unless u _ _ (.updateRun _ _) trivial
    exact hUpdates write hRun
  · obtain rfl := List.mem_singleton.mp hAudit
    intro evidence hEvidence
    rw [h] at hEvidence
    cases hEvidence

end Writes

/-! ## Steps -/

/-- A step which keeps the records clean. -/
def CleanMoment (u : Unicode) (m : Moment Vocabulary) : Prop :=
  RecordsClean u m.before.tables → RecordsClean u m.after.tables

section Steps

variable {u : Unicode}

theorem CleanMoment.allows : Allows u (CleanMoment u) where
  still _ _ _ h := h
  book m hBook h := by
    obtain ⟨runs, kvCache, hTables⟩ := hBook.tables
    rw [hTables]
    exact h.same rfl rfl
  commit writes hWrites s t hTables _ h := by
    show RecordsClean u t.tables
    rw [hTables]
    exact h.after hWrites.clean

theorem cleanMoment_failure {run : Run} {audit : AuditTrace} (hNone : audit.evidence = none)
    {s t : World} (hTables : t.tables = s.tables.after (failureWrites run audit)) :
    CleanMoment u ⟨s, .moved, t⟩ := by
  intro h
  show RecordsClean u t.tables
  rw [hTables]
  exact h.after (cleanWrite_failure hNone)

theorem cleanMoment_put (s t : World) (h : t.db = s.db) : CleanMoment u ⟨s, .moved, t⟩ := by
  intro hClean
  exact hClean.same (by simp only [World.tables, h]) (by simp only [World.tables, h])

theorem clean_executeStages (ctx : PipelineContext) (hTables : ctx.services.platform.unicode = u) :
    Keeps (CleanMoment u) (executeStages ctx) := by
  subst hTables
  exact CleanMoment.allows.executeStages
    (fun _ _ _ hNone _ _ hTables _ => cleanMoment_failure hNone hTables) (fun _ _ _ h => h) ctx
    cleanMoment_put

theorem clean_persistStartFailure (tables : Unicode) (runId : Uuid) (reason : PyError) :
    Keeps (CleanMoment u) (persistStartFailure tables runId reason) := by
  have hAllows := CleanMoment.allows (u := u)
  refine keeps_tryCatch (keeps_bind (hAllows.getRun _) fun found => ?_) fun _ => keeps_done _
  cases found with
  | none => exact keeps_done _
  | some run =>
      refine keeps_ite (fun _ => keeps_done _) fun _ => ?_
      refine keeps_bind (hAllows.query _) fun _ => keeps_bind (hAllows.query _) fun id =>
        keeps_bind (hAllows.query _) fun ts => ?_
      exact keeps_commitWrites (fun _ h => h) fun s t hTables _ _ =>
        cleanMoment_failure rfl hTables

end Steps

/-! ## Histories -/

/-- What writes checkpoints and audit rows: a task, an execution of the flow, and the in-process
runner, whose services may have failed to come up. -/
inductive RecordJob where
  | pipeline (job : RunJob)
  | runner (services : Except PyError PipelineServices)

/-- What a job returns. -/
abbrev RecordJob.result : RecordJob → Type
  | .pipeline job => job.result
  | .runner _ => Text

/-- The program of a job. -/
def recordJob (u : Unicode) : (job : Uuid × RecordJob) → Action job.2.result
  | (runId, .pipeline job) => runJob runId job
  | (runId, .runner services) => DefaultPipelineRunner.run u runId services

/-- The services of a job, if it has any. -/
def RecordJob.services? : RecordJob → Option PipelineServices
  | .pipeline (.task _ services) => some services
  | .pipeline (.flow services) => some services
  | .runner services => services.toOption

theorem keeps_recordJob {u : Unicode} (job : Uuid × RecordJob)
    (h : ∀ services, job.2.services? = some services → services.platform.unicode = u) :
    Keeps (CleanMoment u) (recordJob u job) := by
  obtain ⟨runId, (stage | services) | (error | services)⟩ := job
  · rename_i services
    obtain rfl := h services rfl
    exact CleanMoment.allows.stageTasks cleanMoment_put stage ⟨runId, services⟩
  · exact clean_executeStages ⟨runId, services⟩ (h services rfl)
  · exact keeps_bind (clean_persistStartFailure _ _ _) fun _ => keeps_done _
  · exact keeps_tryCatch (clean_executeStages ⟨runId, services⟩ (h services rfl))
      fun _ => keeps_done _

/-- No secret pattern matches in a string which is a value of a redacted value, and its keys are
those from before.  In every history of the jobs which write records, no secret pattern matches in a
string or a key of a state or of evidence, if none did at the start. -/
theorem redactJson_complete (u : Unicode) :
    (∀ value : Json, (∀ text ∈ (redactJson u value).strings, SecretFree u text) ∧
      (redactJson u value).keys = value.keys) ∧
    ∀ (s t : World) (log : Log Vocabulary),
      HistoryWhere (recordJob u) (fun job _ => ∀ services, job.2.services? = some services →
        services.platform.unicode = u) s log t → RecordsClean u s.tables →
      RecordsClean u t.tables ∧ ∀ m ∈ log, RecordsClean u m.after.tables := by
  refine ⟨fun value => ⟨redactJson_strings u value, keys_redactJson u value⟩, ?_⟩
  intro s t log hHistory hStart
  have hMoments := hHistory.keeps_where fun job _ hMay => keeps_recordJob job hMay
  have hRun := hHistory.linked.invariant (fun w : World => RecordsClean u w.tables)
    (fun m hm hBefore => hMoments m hm hBefore) hStart
  exact ⟨hRun.1, fun m hm => hMoments m hm (hRun.2 m hm)⟩

/-- A run which is killed after its first three checkpoints, the third one of its collection. -/
theorem redactJson_complete_served :
    let ran := ({} : Served).runs [22, 14, 24]
    RecordsClean ({} : Served).platform.unicode ran.2.tables ∧
      ran.2.tables.checkpoints.length = 3 ∧ ran.2.tables.auditTrace.length = 1 := by
  intro ran
  have hHistory : HistoryWhere (recordJob ({} : Served).platform.unicode)
      (fun job _ => ∀ services, job.2.services? = some services →
        services.platform.unicode = ({} : Served).platform.unicode)
      (World.submitted 1) ran.1 ran.2 :=
    simulateRuns_history ((⟨1⟩, .pipeline (.flow ({} : Served).services)) : Uuid × RecordJob)
      (fun _ => by rintro _ ⟨⟩; rfl) _ _ _ _
  have hStart : RecordsClean ({} : Served).platform.unicode (World.submitted 1).tables :=
    ⟨by rintro _ ⟨⟩, by rintro _ ⟨⟩⟩
  have hCounts : ran.2.tables.checkpoints.length = 3 ∧ ran.2.tables.auditTrace.length = 1 := by
    decide +kernel
  exact ⟨((redactJson_complete _).2 _ _ _ hHistory hStart).1, hCounts⟩

/-- A secret which is the key of an object stays. -/
theorem redactJson_keeps_key : ∃ (u : Unicode) (value : Json),
    ∃ key ∈ (redactJson u value).keys, ¬ SecretFree u key := by
  let key : Text := "sk-aaaaaaaaaaaaaaaa".toList
  refine ⟨Platform.plain.unicode, .obj [(key, .null)], key, List.mem_cons_self .., ?_⟩
  rw [← redactSecrets_eq_self_iff]
  decide

end Ecrke
