import Ecrke.Pipeline.FlowLaws
import Ecrke.Pipeline.Footprints

/-!
# The audit trail is complete

A source, a contradiction or a conclusion becomes visible in the same commit as the audit row about
it, and a run becomes failed in a commit which adds the audit row of the failure.  This holds of
every step of every execution, so it does not matter where an execution is cut off and what the next
one finds.

* `Entity`, `Entity.ids`, `Entity.audits` -- the entities in question and the audit rows about them.
* `Audited` -- what has been added of an entity is in step with the audit rows which have been added.
* `AuditMoment` -- a step which keeps the trail complete.
* `auditTrail_complete` -- the trail in every state of a history.
-/

namespace Ecrke

open Durable

/-- The entities whose insertion is audited. -/
inductive Entity where
  | source
  | contradiction
  | conclusion
  deriving DecidableEq

namespace Entity

/-- The entity type of the audit rows. -/
def entityType : Entity → Text
  | source => "source".toList
  | contradiction => "contradiction".toList
  | conclusion => "conclusion".toList

/-- The rows of an entity, by their identifiers. -/
def ids : Entity → Tables → List Uuid
  | source, t => t.sources.map Source.id
  | contradiction, t => t.contradictions.map Contradiction.id
  | conclusion, t => t.conclusions.map Conclusion.id

/-- The audit rows about an entity. -/
def audits (entity : Entity) (t : Tables) : List AuditTrace :=
  t.auditTrace.filter fun row => row.entityType = entity.entityType

theorem ids_nodup (entity : Entity) {t : Tables} (h : t.Valid) : (entity.ids t).Nodup := by
  cases entity with
  | source => exact h.sourcesKey
  | contradiction => exact h.contradictionsKey
  | conclusion => exact h.conclusionsKey

end Entity

/-- What has been added of an entity is in step with the audit rows which have been added. -/
def Audited (entity : Entity) (t t' : Tables) : Prop :=
  ∃ ids rows, entity.ids t' = entity.ids t ++ ids ∧ entity.audits t' = entity.audits t ++ rows ∧
    rows.map AuditTrace.entityId = ids.map fun id => some id.str

namespace Audited

variable {entity : Entity} {t t' t'' : Tables}

theorem of_same (hIds : entity.ids t' = entity.ids t) (hAudits : entity.audits t' = entity.audits t) :
    Audited entity t t' :=
  ⟨[], [], by simp [hIds], by simp [hAudits], rfl⟩

theorem refl (t : Tables) : Audited entity t t := .of_same rfl rfl

theorem trans (h : Audited entity t t') (h' : Audited entity t' t'') : Audited entity t t'' := by
  obtain ⟨ids, rows, hIds, hRows, hStep⟩ := h
  obtain ⟨ids', rows', hIds', hRows', hStep'⟩ := h'
  refine ⟨ids ++ ids', rows ++ rows', ?_, ?_, ?_⟩
  · rw [hIds', hIds, List.append_assoc]
  · rw [hRows', hRows, List.append_assoc]
  · rw [List.map_append, List.map_append, hStep, hStep']

/-- Rows whose audit rows come along. -/
theorem added {ids : List Uuid} {rows : List AuditTrace}
    (hIds : entity.ids t' = entity.ids t ++ ids) (hRows : t'.auditTrace = t.auditTrace ++ rows)
    (hType : ∀ row ∈ rows, row.entityType = entity.entityType)
    (hStep : rows.map AuditTrace.entityId = ids.map fun id => some id.str) :
    Audited entity t t' := by
  refine ⟨ids, rows, hIds, ?_, hStep⟩
  have hNew : rows.filter (fun row => row.entityType = entity.entityType) = rows :=
    List.filter_eq_self.mpr (by simpa using hType)
  rw [Entity.audits, hRows, List.filter_append, hNew]
  rfl

/-- Audit rows about something else. -/
theorem aside {rows : List AuditTrace} (hIds : entity.ids t' = entity.ids t)
    (hRows : t'.auditTrace = t.auditTrace ++ rows)
    (hType : ∀ row ∈ rows, row.entityType ≠ entity.entityType) : Audited entity t t' := by
  refine .of_same hIds ?_
  have hNew : rows.filter (fun row => row.entityType = entity.entityType) = [] :=
    List.filter_eq_nil_iff.mpr (by simpa using hType)
  rw [Entity.audits, hRows, List.filter_append, hNew, List.append_nil]
  rfl

end Audited

/-- A step which keeps the trail complete. -/
structure AuditMoment (m : Moment Vocabulary) : Prop where
  entities : ∀ entity, Audited entity m.before.tables m.after.tables
  failures : ∀ runId, (runId, .failed) ∈ standings m.after.tables →
    (runId, .failed) ∉ standings m.before.tables →
    ∃ row, m.after.tables.auditTrace = m.before.tables.auditTrace ++ [row] ∧ IsRunFailed runId row

namespace AuditMoment

variable {s t : World} {happening : Happening Vocabulary}

/-- A step which changes neither the status of a run nor anything which is audited. -/
theorem of_same (hSources : t.tables.sources.map Source.id = s.tables.sources.map Source.id)
    (hContradictions : t.tables.contradictions = s.tables.contradictions)
    (hConclusions : t.tables.conclusions = s.tables.conclusions)
    (hAudits : ∃ rows, t.tables.auditTrace = s.tables.auditTrace ++ rows ∧
      ∀ row ∈ rows, row.entityType = "statement".toList)
    (hRuns : standings t.tables = standings s.tables) : AuditMoment ⟨s, happening, t⟩ := by
  obtain ⟨rows, hRows, hType⟩ := hAudits
  refine ⟨fun entity => .aside ?_ hRows fun row hRow => ?_, fun runId hAfter hBefore => ?_⟩
  · cases entity with
    | source => exact hSources
    | contradiction => exact congrArg (List.map Contradiction.id) hContradictions
    | conclusion => exact congrArg (List.map Conclusion.id) hConclusions
  · rw [hType row hRow]
    cases entity <;> decide
  · exact absurd (hRuns ▸ hAfter) hBefore

/-- A commit which adds rows of one entity with their audit rows. -/
theorem of_added (entity : Entity) (ids : List Uuid) (rows : List AuditTrace)
    (hIds : entity.ids t.tables = entity.ids s.tables ++ ids)
    (hOthers : ∀ other, other ≠ entity → other.ids t.tables = other.ids s.tables)
    (hRows : t.tables.auditTrace = s.tables.auditTrace ++ rows)
    (hType : ∀ row ∈ rows, row.entityType = entity.entityType)
    (hStep : rows.map AuditTrace.entityId = ids.map fun id => some id.str)
    (hRuns : t.tables.runs = s.tables.runs) : AuditMoment ⟨s, happening, t⟩ := by
  refine ⟨fun other => ?_, fun runId hAfter hBefore => ?_⟩
  · by_cases hSame : other = entity
    · subst hSame
      exact .added hIds hRows hType hStep
    · refine .aside (hOthers other hSame) hRows fun row hRow hOther => hSame ?_
      rw [hType row hRow] at hOther
      revert hOther
      cases other <;> cases entity <;> decide
  · rw [standings, hRuns] at hAfter
    exact absurd hAfter hBefore

end AuditMoment

/-- The status which an UPDATE of a run leaves is the one which it sets, or was there before. -/
theorem mem_standings_updateRun {t : Tables} {id runId : Uuid} {changes : RunChanges}
    {status : RunStatus}
    (h : (runId, status) ∈ standings { t with runs := modifyRow Run.id id changes.apply t.runs }) :
    (runId, status) ∈ standings t ∨ runId = id ∧ changes.status = some status := by
  obtain ⟨run, hRun, hStanding⟩ := List.mem_map.mp h
  rcases mem_modifyRow.mp hRun with ⟨old, hOld, hId, rfl⟩ | ⟨hOld, -⟩
  · cases hStatus : changes.status with
    | none =>
        refine .inl (List.mem_map.mpr ⟨old, hOld, ?_⟩)
        simpa [RunChanges.apply, hStatus] using hStanding
    | some value =>
        simp only [RunChanges.apply, hStatus, Option.getD_some, Prod.mk.injEq] at hStanding
        exact .inr ⟨hStanding.1.symm.trans hId, by rw [hStanding.2]⟩
  · exact .inl (List.mem_map.mpr ⟨run, hOld, hStanding⟩)

/-- The transactions of the pipeline keep the trail complete. -/
theorem Transaction.auditMoment {u : Unicode} {writes : List Write}
    (h : Transaction u writes) {s t : World} (ht : t.tables = s.tables.after writes) :
    AuditMoment ⟨s, .moved, t⟩ := by
  cases h with
  | sourced row audit hAudit =>
      refine .of_added .source [row.id] [audit] ?_ ?_ ?_ ?_ ?_ ?_
      · rw [ht]
        exact List.map_append
      · intro other hOther
        cases other with
        | source => exact absurd rfl hOther
        | contradiction => rw [ht]; rfl
        | conclusion => rw [ht]; rfl
      · rw [ht]; rfl
      · exact List.forall_mem_singleton.mpr hAudit.entityType
      · exact congrArg (fun id => [id]) hAudit.entityId
      · rw [ht]; rfl
  | stored rows status hStatus =>
      have hAfter : ∃ sources passages, t.tables = { s.tables with sources, passages } ∧
          sources.map Source.id = s.tables.sources.map Source.id := by
        rw [ht, Tables.after_append, Tables.after_insertPassages]
        rcases hStatus with rfl | ⟨id, value, rfl⟩
        · exact ⟨_, _, rfl, rfl⟩
        · exact ⟨_, _, rfl, map_modifyRow fun _ => rfl⟩
      obtain ⟨sources, passages, hTables, hIds⟩ := hAfter
      refine .of_same ?_ ?_ ?_ ⟨[], ?_, by simp⟩ ?_ <;> simp only [hTables, List.append_nil]
      · exact hIds
      · rfl
  | drafted statements links =>
      rw [Tables.after_append, Tables.after_insertStatements, Tables.after_insertEvidenceLinks] at ht
      refine .of_same ?_ ?_ ?_ ⟨[], ?_, by simp⟩ ?_ <;> simp only [ht, List.append_nil]
      rfl
  | judged audit link merged hAudit =>
      rw [Tables.after_append] at ht
      obtain ⟨statements, hAfter⟩ := after_mergedWrites_statements
        (s.tables.after [.insertAuditTrace audit, .insertEvidenceLink link]) merged
      rw [hAfter] at ht
      refine .of_same ?_ ?_ ?_ ⟨[audit], ?_, by simpa using hAudit⟩ ?_ <;> rw [ht] <;> rfl
  | found row rows =>
      rw [Tables.after_cons, Tables.after_insertFindingStatements] at ht
      refine .of_same ?_ ?_ ?_ ⟨[], ?_, by simp⟩ ?_ <;> rw [ht]
      all_goals first | rfl | exact (List.append_nil _).symm
  | contradicted row audit hAudit =>
      refine .of_added .contradiction [row.id] [audit] ?_ ?_ ?_ ?_ ?_ ?_
      · rw [ht]
        exact List.map_append
      · intro other hOther
        cases other with
        | source => rw [ht]; rfl
        | contradiction => exact absurd rfl hOther
        | conclusion => rw [ht]; rfl
      · rw [ht]; rfl
      · exact List.forall_mem_singleton.mpr hAudit.entityType
      · exact congrArg (fun id => [id]) hAudit.entityId
      · rw [ht]; rfl
  | concluded rows hRows =>
      rw [after_conclusionWrites] at ht
      refine .of_added .conclusion (rows.map fun row => row.conclusion.id) (rows.map Cited.audit)
        ?_ ?_ ?_ ?_ ?_ ?_
      · rw [ht]
        simp [Entity.ids, Function.comp_def]
      · intro other hOther
        cases other with
        | source => rw [ht]; rfl
        | contradiction => rw [ht]; rfl
        | conclusion => exact absurd rfl hOther
      · rw [ht]
      · intro audit hAudit
        obtain ⟨row, hRow, rfl⟩ := List.mem_map.mp hAudit
        exact (hRows row hRow).entityType
      · rw [List.map_map, List.map_map]
        exact List.map_congr_left fun row hRow => (hRows row hRow).entityId
      · rw [ht]
  | saved row =>
      refine .of_same ?_ ?_ ?_ ⟨[], ?_, by simp⟩ ?_ <;> rw [ht]
      all_goals first | rfl | exact (List.append_nil _).symm
  | resaved id state =>
      refine .of_same ?_ ?_ ?_ ⟨[], ?_, by simp⟩ ?_ <;> rw [ht]
      all_goals first | rfl | exact (List.append_nil _).symm
  | nothing =>
      refine .of_same ?_ ?_ ?_ ⟨[], ?_, by simp⟩ ?_ <;> rw [ht]
      all_goals first | rfl | exact (List.append_nil _).symm
  | updated id changes hChanges =>
      refine ⟨fun entity => ?_, fun runId hAfter hBefore => ?_⟩
      · rw [ht]
        cases entity <;> exact .of_same rfl rfl
      · rw [ht] at hAfter
        rcases mem_standings_updateRun hAfter with hOld | ⟨-, hNew⟩
        · exact absurd hOld hBefore
        · exact absurd hNew hChanges

/-- A failure is recorded together with its audit row. -/
theorem AuditMoment.of_failed {run : Run} {audit : AuditTrace} (hAudit : IsRunFailed run.id audit)
    {s t : World} (ht : t.tables = s.tables.after (failureWrites run audit)) :
    AuditMoment ⟨s, .moved, t⟩ := by
  obtain ⟨runs, hAfter⟩ := after_runUpdates s.tables run { run with status := .failed }
  have hTables : t.tables =
      { s.tables with runs, auditTrace := s.tables.auditTrace ++ [audit] } := by
    rw [ht, failureWrites, Tables.after_append, hAfter]
    rfl
  refine ⟨fun entity => ?_, fun runId hFailed hBefore => ⟨audit, by rw [hTables], ?_⟩⟩
  · have hRows : t.tables.auditTrace = s.tables.auditTrace ++ [audit] := by rw [hTables]
    refine .aside ?_ hRows ?_
    · rw [hTables]
      cases entity <;> rfl
    · rw [List.forall_mem_singleton, hAudit.audit.entityType]
      cases entity <;> decide
  · -- The only row which the commit changes is that of the run.
    have hRun : runId = run.id := by
      have hRuns : (runId, .failed) ∈ standings (s.tables.after
          (run.updates { run with status := .failed })) := by
        rw [hAfter]
        rwa [hTables] at hFailed
      unfold Run.updates at hRuns
      dsimp only at hRuns
      split at hRuns
      · exact absurd hRuns hBefore
      · exact (mem_standings_updateRun hRuns).resolve_left hBefore |>.1
    rw [hRun]
    exact hAudit

theorem AuditMoment.allows (u : Unicode) : Allows u AuditMoment where
  still s happening _ := .of_same rfl rfl rfl ⟨[], by simp, by simp⟩ rfl
  book m hBook := by
    obtain ⟨runs, kvCache, hTables⟩ := hBook.tables
    refine .of_same ?_ ?_ ?_ ⟨[], ?_, by simp⟩ hBook.standings <;> rw [hTables]
    simp
  commit writes hWrites s t hTables _ := hWrites.auditMoment hTables

/-- What may be executed: a job of any run. -/
def anyJob (job : Uuid × RunJob) : Action job.2.result := runJob job.1 job.2

/-- Every step of every job keeps the trail complete. -/
theorem keeps_anyJob (job : Uuid × RunJob) : Keeps AuditMoment (anyJob job) := by
  have hPut (s t : World) (hDb : t.db = s.db) : AuditMoment ⟨s, .moved, t⟩ := by
    refine .of_same ?_ ?_ ?_ ⟨[], ?_, by simp⟩ ?_ <;> simp only [World.tables, hDb, List.append_nil]
  obtain ⟨runId, task | flow⟩ := job
  · exact (AuditMoment.allows _).stageTasks hPut _ _
  · exact (AuditMoment.allows _).executeStages
      (fun _ _ hAudit _ _ _ hTables _ => .of_failed hAudit hTables)
      (fun s _ _ => .of_same rfl rfl rfl ⟨[], by simp, by simp⟩ rfl) _ hPut

/-- The rows of the entities which have been added since some tables, and the audit rows about them
which have been added: each identifier and each audit row is about exactly one of the other kind. -/
structure TrailComplete (entity : Entity) (t t' : Tables) : Prop where
  matched : ∃ ids rows, entity.ids t' = entity.ids t ++ ids ∧
    entity.audits t' = entity.audits t ++ rows ∧
    (rows.map AuditTrace.entityId).Nodup ∧
    rows.map AuditTrace.entityId = ids.map fun id => some id.str

theorem Audited.trailComplete {entity : Entity} {t t' : Tables} (h : Audited entity t t')
    (hValid : t'.Valid) : TrailComplete entity t t' := by
  obtain ⟨ids, rows, hIds, hRows, hStep⟩ := h
  refine ⟨ids, rows, hIds, hRows, ?_, hStep⟩
  have hNodup : (entity.ids t').Nodup := entity.ids_nodup hValid
  rw [hIds] at hNodup
  rw [hStep]
  refine (List.nodup_append.mp hNodup).2.1.map fun a b hab => ?_
  exact Uuid.str_injective (Option.some.inj hab)

/-- In every state which executions of jobs lead through, the sources, the contradictions and the
conclusions which have been added match the audit rows which have been added, and every step which
makes a run fail adds its audit row. -/
theorem auditTrail_complete {may : Uuid × RunJob → World → Prop} {s t : World}
    {log : Log Vocabulary} (h : HistoryWhere anyJob may s log t) :
    (∀ entity, TrailComplete entity s.tables t.tables) ∧
      ∀ m ∈ log, (∀ entity, TrailComplete entity s.tables m.after.tables ∧
          TrailComplete entity m.before.tables m.after.tables) ∧
        ∀ runId, (runId, .failed) ∈ standings m.after.tables →
          (runId, .failed) ∉ standings m.before.tables →
          ∃ row, m.after.tables.auditTrace = m.before.tables.auditTrace ++ [row] ∧
            IsRunFailed runId row := by
  have hMoments := h.keeps keeps_anyJob
  have hAudited (entity : Entity) := h.linked.invariant
    (fun w : World => Audited entity s.tables w.tables)
    (fun m hm hBefore => hBefore.trans ((hMoments m hm).entities entity)) (.refl _)
  refine ⟨fun entity => (hAudited entity).1.trailComplete t.db.valid, fun m hm => ⟨fun entity => ?_,
    (hMoments m hm).failures⟩⟩
  have hStep := (hMoments m hm).entities entity
  exact ⟨(((hAudited entity).2 m hm).trans hStep).trailComplete m.after.db.valid,
    hStep.trailComplete m.after.db.valid⟩

/-- The connection is lost in the first query of the stage. -/
def lostInStage : Environment Vocabulary :=
  quietOutside fun n => if n = 6 then .refuse "connection lost".toList else .grant

/-- A run which is killed after it has collected its source, and which fails when it is resumed. -/
theorem auditTrail_complete_served :
    let first := ({} : Served).runs [22, 14, 24]
    let second := simulate lostInStage 100 0 (anyJob (⟨1⟩, .flow .plain)) first.2
    (Entity.source.ids second.2.2.tables).length = 1 ∧
      (∀ entity, TrailComplete entity (World.submitted 1).tables second.2.2.tables) ∧
      ∃ m ∈ first.1 ++ second.1, ∃ row, m.after.tables.auditTrace =
        m.before.tables.auditTrace ++ [row] ∧ IsRunFailed ⟨1⟩ row := by
  intro first second
  have hHistory : HistoryWhere anyJob (fun _ _ => True) (World.submitted 1)
      (first.1 ++ second.1) second.2.2 := by
    have hFirst : HistoryWhere anyJob (fun _ _ => True) (World.submitted 1) first.1 first.2 :=
      simulateRuns_history ((⟨1⟩, .flow ({} : Served).services) : Uuid × RunJob)
        (fun _ => trivial) _ _ _ _
    exact .snoc hFirst (⟨1⟩, .flow .plain) trivial (simulate_exec _ _ _ _ _)
  have hRun : (Entity.source.ids second.2.2.tables).length = 1 ∧
      (first.1 ++ second.1).any fun m => (⟨1⟩, .failed) ∈ standings m.after.tables &&
        decide ((⟨1⟩, .failed) ∉ standings m.before.tables) := by
    decide +kernel
  obtain ⟨hEntities, hMoments⟩ := auditTrail_complete hHistory
  obtain ⟨m, hm, hFails⟩ := List.any_eq_true.mp hRun.2
  simp only [Bool.and_eq_true, decide_eq_true_eq] at hFails
  exact ⟨hRun.1, hEntities, m, hm, (hMoments m hm).2 ⟨1⟩ hFails.1 hFails.2⟩

end Ecrke
