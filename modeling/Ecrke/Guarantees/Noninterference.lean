import Ecrke.Guarantees.Tenants

/-!
# Noninterference of tenants

In two stores with the same rows of a tenant, what is executed for a request of the tenant in the
one can be executed in the other, with the same answers, faults and response.  Only the order in
which queries return rows may differ, and whether what is asked for belongs to another tenant must
not.

* `Foreign` -- a request for something of another tenant.
* `mirrors_loadRun`, `mirrors_withRun` -- the isolation of the tenants, in two such stores.
* `mirrors_getStages` ... `mirrors_kbSearch` -- the endpoints.
* `mirrors_respond` -- the responses, errors included.
-/

namespace Ecrke

open Durable

/-- Two programs which mirror each other in two stores. -/
abbrev MirroredIn (s s' : Store) (key : Option Text) {α β : Type} (V : α → β → Prop)
    (p : Action α) (q : Action β) : Prop :=
  Mirrors withoutOrder (Beside s.world s'.world key) V p q

/-- A run of another tenant. -/
def OthersRun (tenantId : Uuid) (t : Tables) (runId : Uuid) : Prop :=
  ∃ run ∈ t.runs, run.id = runId ∧ run.tenantId ≠ tenantId

/-- A request for something of another tenant. -/
def Foreign (request : ApiRequest) (t : Tables) : Prop :=
  match request.target with
  | .run runId | .stages runId | .conclusions runId | .contradictions runId | .report runId
  | .audit runId => OthersRun request.tenantId t runId
  | .statementTrace statementId => ∃ statement ∈ t.statements, statement.id = statementId ∧
      OthersRun request.tenantId t statement.runId
  | .kbSearch _ => False

/-! ## Isolation -/

/-- What `_load_run` makes of the run it has found. -/
def checkTenant (tenantId : Uuid) : Option Run → Except HttpException Run
  | none => .error ⟨404, "run not found".toList⟩
  | some run =>
      if run.tenantId ≠ tenantId then .error ⟨403, "cross-tenant access denied".toList⟩ else .ok run

/-- What `_load_run` gives in certain tables. -/
def loaded (runId tenantId : Uuid) (t : Tables) : Except HttpException Run :=
  checkTenant tenantId (findRow Run.id runId t.runs)

theorem loadRun_eq (runId tenantId : Uuid) : Routes.loadRun runId tenantId =
    (selectTables fun t => findRow Run.id runId t.runs).bind fun found =>
      .done (checkTenant tenantId found) := by
  unfold Routes.loadRun
  rw [Prog.bind_def]
  congr 1
  funext found
  cases found with
  | none => rfl
  | some run =>
      dsimp only [checkTenant]
      split
      · rfl
      · rfl

section Isolation

variable {tenantId runId : Uuid} {s s' : Store} {t : Tables}

theorem loaded_own (hKey : Keyed Run.id t.runs) {run : Run} (hRun : run ∈ t.runs)
    (hTenant : run.tenantId = tenantId) : loaded run.id tenantId t = .ok run := by
  rw [loaded, hKey.findRow_eq hRun, checkTenant, if_neg (not_not_intro hTenant)]

theorem loaded_others (hKey : Keyed Run.id t.runs) (h : OthersRun tenantId t runId) :
    loaded runId tenantId t = .error ⟨403, "cross-tenant access denied".toList⟩ := by
  obtain ⟨run, hRun, rfl, hTenant⟩ := h
  rw [loaded, hKey.findRow_eq hRun, checkTenant, if_pos hTenant]

theorem loaded_missing (hOwn : ¬ Owns tenantId t runId) (hOthers : ¬ OthersRun tenantId t runId) :
    loaded runId tenantId t = .error ⟨404, "run not found".toList⟩ := by
  cases hFind : findRow Run.id runId t.runs with
  | none => rw [loaded, hFind, checkTenant]
  | some run =>
      obtain ⟨hRun, hId⟩ := findRow_some hFind
      by_cases hTenant : run.tenantId = tenantId
      · exact absurd ⟨run, hRun, hId, hTenant⟩ hOwn
      · exact absurd ⟨run, hRun, hId, hTenant⟩ hOthers

theorem loaded_ok {run : Run} (h : loaded runId tenantId t = .ok run) :
    run ∈ t.runs ∧ run.id = runId ∧ run.tenantId = tenantId := by
  unfold loaded at h
  cases hFind : findRow Run.id runId t.runs with
  | none =>
      rw [hFind] at h
      cases h
  | some found =>
      rw [hFind, checkTenant] at h
      split at h
      · cases h
      · rename_i hTenant
        cases h
        obtain ⟨hRun, hId⟩ := findRow_some hFind
        exact ⟨hRun, hId, not_not.mp hTenant⟩

/-- A run is loaded alike in two stores, if it belongs to another tenant in both or in neither. -/
theorem loaded_same (hSame : s.ownedBy tenantId = s'.ownedBy tenantId)
    (hOthers : OthersRun tenantId s.world.tables runId ↔ OthersRun tenantId s'.world.tables runId) :
    loaded runId tenantId s.world.tables = loaded runId tenantId s'.world.tables := by
  have hKey := s.world.db.valid.runsKey
  have hKey' := s'.world.db.valid.runsKey
  by_cases hOwn : Owns tenantId s.world.tables runId
  · obtain ⟨run, hRun, rfl, hTenant⟩ := hOwn
    rw [loaded_own hKey hRun hTenant, loaded_own hKey' ((own_run hSame hTenant).mp hRun) hTenant]
  · by_cases hOther : OthersRun tenantId s.world.tables runId
    · rw [loaded_others hKey hOther, loaded_others hKey' (hOthers.mp hOther)]
    · have hOwn' : ¬ Owns tenantId s'.world.tables runId := by rwa [← owns_iff hSame]
      rw [loaded_missing hOwn hOther, loaded_missing hOwn' (by rwa [← hOthers])]

variable {key : Option Text}

theorem mirrors_loadRun
    (h : loaded runId tenantId s.world.tables = loaded runId tenantId s'.world.tables) :
    MirroredIn s s' key (fun r r' => r = r' ∧ r = loaded runId tenantId s.world.tables)
      (Routes.loadRun runId tenantId) (Routes.loadRun runId tenantId) := by
  rw [loadRun_eq]
  have hFound : MirroredIn s s' key (fun found found' =>
      found = findRow Run.id runId s.world.tables.runs ∧
        found' = findRow Run.id runId s'.world.tables.runs)
      (selectTables fun t => findRow Run.id runId t.runs)
      (selectTables fun t => findRow Run.id runId t.runs) :=
    mirrors_selectTables fun _ _ => ⟨rfl, rfl⟩
  refine hFound.bind ?_
  rintro found found' ⟨rfl, rfl⟩
  exact mirrors_done ⟨h, rfl⟩

theorem mirrors_withRun {rest rest' : Run → Action Body}
    (h : loaded runId tenantId s.world.tables = loaded runId tenantId s'.world.tables)
    (hRest : ∀ run, loaded runId tenantId s.world.tables = .ok run →
      MirroredIn s s' key (· = ·) (rest run) (rest' run)) :
    MirroredIn s s' key (· = ·) (Routes.withRun runId tenantId rest)
      (Routes.withRun runId tenantId rest') := by
  refine (mirrors_loadRun h).bind ?_
  rintro result _ ⟨rfl, hLoaded⟩
  cases result with
  | error error => exact mirrors_done rfl
  | ok run =>
      refine (hRest run hLoaded.symm).bind ?_
      rintro body _ rfl
      exact mirrors_done rfl

end Isolation

/-! ## Endpoints of a run -/

/-- Two ways of reading the items of a list which agree on them. -/
theorem mapM_of_agree {α β ε : Type} {f g : α → Except ε β} {items : List α}
    (h : ∀ item ∈ items, f item = g item) : items.mapM f = items.mapM g := by
  induction items with
  | nil => rfl
  | cons item rest ih =>
      rw [List.mapM_cons, List.mapM_cons, h item List.mem_cons_self,
        ih fun other hOther => h other (List.mem_cons_of_mem _ hOther)]

section Endpoints

variable {api : ApiPlatform} {tenantId runId : Uuid} {s s' : Store} {key : Option Text}
  (hSame : s.ownedBy tenantId = s'.ownedBy tenantId) (hOwn : Owns tenantId s.world.tables runId)

include hSame hOwn

theorem mirrors_getStages : MirroredIn s s' key (· = ·) (Routes.getStages api s.columns runId)
    (Routes.getStages api s'.columns runId) := by
  have hPerm : (s.world.tables.checkpoints.filter fun c => c.runId = runId).Perm
      (s'.world.tables.checkpoints.filter fun c => c.runId = runId) :=
    Keyed.perm_filter s.world.db.valid.checkpointsKey s'.world.db.valid.checkpointsKey
      fun row hRow => (own_checkpoint hSame (by simpa [of_decide_eq_true hRow] using hOwn)).1
  refine Mirrors.bind (mirrors_selectRows (fun _ _ => rfl) hPerm) ?_
  rintro rows _ ⟨rfl, hRows⟩
  have hAgree (row : Checkpoint) (hRow : row ∈ rows.mergeSort fun a b =>
      stagePlace a.stage ≤ stagePlace b.stage) :
      stageInfo api s.columns row = stageInfo api s'.columns row := by
    have hMem := List.mem_filter.mp (hRows.mem_iff.mp (List.mem_mergeSort.mp hRow))
    have hRun : Owns tenantId s.world.tables row.runId := by
      simpa [of_decide_eq_true hMem.2] using hOwn
    rw [stageInfo, stageInfo, (own_checkpoint hSame hRun).2 hMem.1]
  dsimp only
  rw [mapM_of_agree hAgree]
  refine (mirrors_ofExcept _).bind ?_
  rintro values _ rfl
  exact mirrors_done rfl

theorem conclusions_perm : (s.world.tables.conclusions.filter fun c => c.runId = runId).Perm
    (s'.world.tables.conclusions.filter fun c => c.runId = runId) :=
  Keyed.perm_filter s.world.db.valid.conclusionsKey s'.world.db.valid.conclusionsKey
    fun row hRow => own_conclusion hSame (by simpa [of_decide_eq_true hRow] using hOwn)

theorem mirrors_getConclusions :
    MirroredIn s s' key (· = ·) (Routes.getConclusions api s.columns runId)
      (Routes.getConclusions api s'.columns runId) := by
  refine Mirrors.bind (mirrors_selectRows (fun _ _ => rfl) (conclusions_perm hSame hOwn)) ?_
  rintro rows _ ⟨rfl, hRows⟩
  refine Mirrors.bind (mirrors_mapM fun conclusion hConclusion => ?_) ?_
  · have hMem := List.mem_filter.mp (hRows.mem_iff.mp (List.mem_mergeSort.mp hConclusion))
    have hOwned (link : ConclusionEvidence) (hLink : link.conclusionId = conclusion.id) :
        OwnsEvidence tenantId s.world.tables link :=
      ⟨conclusion, hMem.1, by simpa [of_decide_eq_true hMem.2] using hOwn, hLink⟩
    have hPerm : (s.world.tables.conclusionEvidence.filter fun link =>
          link.conclusionId = conclusion.id).Perm
        (s'.world.tables.conclusionEvidence.filter fun link => link.conclusionId = conclusion.id) :=
      Keyed.perm_filter s.world.db.valid.evidenceKey s'.world.db.valid.evidenceKey
        fun link hLink => (own_evidence hSame (hOwned link (of_decide_eq_true hLink))).1
    refine Mirrors.bind (mirrors_selectRows (fun _ _ => rfl) hPerm) ?_
    rintro links _ ⟨rfl, hLinks⟩
    refine mirrors_done ?_
    have hIds (link : ConclusionEvidence) (hLink : link ∈ links) :
        s.columns.findingId link = s'.columns.findingId link := by
      have hFound := List.mem_filter.mp (hLinks.mem_iff.mp hLink)
      exact (own_evidence hSame (hOwned link (of_decide_eq_true hFound.2))).2 hFound.1
    rw [conclusionRead, conclusionRead,
      List.map_congr_left fun link hLink => by rw [hIds link hLink]]
  · rintro values _ rfl
    exact mirrors_done rfl

theorem mirrors_getContradictions :
    MirroredIn s s' key (· = ·) (Routes.getContradictions api runId)
      (Routes.getContradictions api runId) := by
  have hPerm : (s.world.tables.contradictions.filter fun c => c.runId = runId).Perm
      (s'.world.tables.contradictions.filter fun c => c.runId = runId) :=
    Keyed.perm_filter s.world.db.valid.contradictionsKey s'.world.db.valid.contradictionsKey
      fun row hRow => own_contradiction hSame (by simpa [of_decide_eq_true hRow] using hOwn)
  refine Mirrors.bind (mirrors_selectRows (fun _ _ => rfl) hPerm) ?_
  rintro rows _ ⟨rfl, -⟩
  refine (mirrors_ofExcept _).bind ?_
  rintro values _ rfl
  exact mirrors_done rfl

theorem mirrors_getAudit :
    MirroredIn s s' key (· = ·) (Routes.getAudit api runId) (Routes.getAudit api runId) := by
  have hPerm : (s.world.tables.auditTrace.filter fun a => a.runId = runId).Perm
      (s'.world.tables.auditTrace.filter fun a => a.runId = runId) :=
    Keyed.perm_filter s.world.db.valid.auditKey s'.world.db.valid.auditKey
      fun row hRow => own_audit hSame (by simpa [of_decide_eq_true hRow] using hOwn)
  refine Mirrors.bind (mirrors_selectRows (fun _ _ => rfl) hPerm) ?_
  rintro rows _ ⟨rfl, -⟩
  refine (mirrors_ofExcept _).bind ?_
  rintro values _ rfl
  exact mirrors_done rfl

/-! ### The report -/

theorem mirrors_load (stage : Text) :
    MirroredIn s s' key (· = ·) (CheckpointStore.load runId stage)
      (CheckpointStore.load runId stage) := by
  have hFind : findCheckpoint runId stage s.world.tables.checkpoints =
      findCheckpoint runId stage s'.world.tables.checkpoints :=
    Keyed.findRow_same s'.world.db.valid.checkpointsStage fun row hKey =>
      (own_checkpoint hSame (by rw [(Prod.mk.inj hKey).1]; exact hOwn)).1
  refine mirrors_selectTables fun _ _ => ?_
  dsimp only
  rw [hFind]

theorem mirrors_reportFromRows (p : Platform) {run : Run} (hRun : run.id = runId) :
    MirroredIn s s' key (· = ·) (reportFromRows p run) (reportFromRows p run) := by
  subst hRun
  have hNow : MirroredIn s s' key (· = ·) now now := mirrors_query (S := Vocabulary) .now
  refine Mirrors.bind (mirrors_selectRows (fun _ _ => rfl) (conclusions_perm hSame hOwn)) ?_
  rintro conclusions _ ⟨rfl, hConclusions⟩
  dsimp only
  split
  · refine hNow.bind ?_
    rintro clock _ rfl
    exact mirrors_done rfl
  have hCited (link : ConclusionEvidence)
      (hLink : (conclusions.any fun c => c.id = link.conclusionId) = true) :
      OwnsEvidence tenantId s.world.tables link := by
    obtain ⟨row, hRow, hId⟩ := List.any_eq_true.mp hLink
    have hMem := List.mem_filter.mp (hConclusions.mem_iff.mp hRow)
    exact ⟨row, hMem.1, by simpa [of_decide_eq_true hMem.2] using hOwn,
      (of_decide_eq_true hId).symm⟩
  refine Mirrors.bind (mirrors_selectRows (fun _ _ => rfl) (evidence_perm hSame hCited)) ?_
  rintro links _ ⟨rfl, hLinks⟩
  have hStatement (row : Statement)
      (hRow : (links.any fun link => link.statementId = row.id) = true) :
      OwnsStatement tenantId s.world.tables row := by
    obtain ⟨link, hLink, hId⟩ := List.any_eq_true.mp hRow
    have hMem := List.mem_filter.mp (hLinks.mem_iff.mp hLink)
    exact .inr ⟨link, hMem.1, hCited link hMem.2, of_decide_eq_true hId⟩
  refine Mirrors.bind (mirrors_selectBy (fun _ _ => rfl) (statements_perm hSame hStatement)
    (by intro h; simp [h])) ?_
  rintro statements _ ⟨rfl, hStatements⟩
  have hPassage (row : Passage)
      (hRow : (statements.any fun statement => statement.passageId = row.id) = true) :
      OwnsPassage tenantId s.world.tables row :=
    ownsPassage_of_any (fun statement hMem => by
      have hFound := List.mem_filter.mp (hStatements.mem_iff.mp hMem)
      exact ⟨hFound.1, hStatement statement hFound.2⟩) hRow
  refine Mirrors.bind (mirrors_selectBy (fun _ _ => rfl) (passages_perm hSame hPassage)
    (by intro h; simp [h])) ?_
  rintro passages _ ⟨rfl, hPassages⟩
  have hSource (row : Source)
      (hRow : (passages.any fun passage => passage.sourceId = row.id) = true) :
      OwnsSource tenantId s.world.tables row :=
    ownsSource_of_any (fun passage hMem => by
      have hFound := List.mem_filter.mp (hPassages.mem_iff.mp hMem)
      exact ⟨hFound.1, hPassage passage hFound.2⟩) hRow
  refine Mirrors.bind (mirrors_selectBy (fun _ _ => rfl) (sources_perm hSame hSource)
    (by intro h; simp [h])) ?_
  rintro sources _ ⟨rfl, -⟩
  have hScores : (s.world.tables.evidenceLinks.filter fun l => l.runId = run.id).Perm
      (s'.world.tables.evidenceLinks.filter fun l => l.runId = run.id) :=
    Keyed.perm_filter s.world.db.valid.linksKey s'.world.db.valid.linksKey
      fun row hRow => own_evidenceLink hSame (by simpa [of_decide_eq_true hRow] using hOwn)
  refine Mirrors.bind (mirrors_selectRows (fun _ _ => rfl) hScores) ?_
  rintro scores _ ⟨rfl, -⟩
  refine (mirrors_ofExcept _).bind ?_
  rintro entries _ rfl
  refine hNow.bind ?_
  rintro clock _ rfl
  exact mirrors_done rfl

/-- The artifact, the checkpoint and the rows are the tenant's. -/
theorem mirrors_getReport {run : Run} (hRun : run.id = runId) :
    MirroredIn s s' (some (traceKey runId)) (· = ·) (Routes.getReport api run)
      (Routes.getReport api run) := by
  subst hRun
  refine Mirrors.bind (mirrors_kvGet (traceKey run.id)) ?_
  -- Each place is tried only where the one before it has no report.
  rintro payload _ rfl
  refine (mirrors_ofExcept _).bind ?_
  rintro found _ rfl
  cases found with
  | some report => exact mirrors_done rfl
  | none =>
      refine (mirrors_load hSame hOwn _).bind ?_
      rintro state _ rfl
      refine (mirrors_ofExcept _).bind ?_
      rintro kept _ rfl
      cases kept with
      | some report => exact mirrors_done rfl
      | none =>
          refine (mirrors_reportFromRows hSame hOwn _ rfl).bind ?_
          rintro report _ rfl
          exact mirrors_done rfl

end Endpoints

/-! ## Statements -/

section Statements

variable {api : ApiPlatform} {tenantId : Uuid} {s s' : Store} {key : Option Text}
  (hSame : s.ownedBy tenantId = s'.ownedBy tenantId)

include hSame

theorem mirrors_traceOf {statement : Statement} (hMem : statement ∈ s.world.tables.statements)
    (hOwn : OwnsStatement tenantId s.world.tables statement) :
    MirroredIn s s' key (· = ·) (Routes.traceOf api statement) (Routes.traceOf api statement) := by
  have hPassage (row : Passage) (hRow : row.id = statement.passageId) :
      OwnsPassage tenantId s.world.tables row :=
    ⟨statement, hMem, hOwn, hRow.symm⟩
  have hPassages : findRow Passage.id statement.passageId s.world.tables.passages =
      findRow Passage.id statement.passageId s'.world.tables.passages :=
    Keyed.findRow_same s'.world.db.valid.passagesKey fun row hRow =>
      own_passage hSame (hPassage row hRow)
  have hFirst : MirroredIn s s' key (fun found found' => found = found' ∧
      found = findRow Passage.id statement.passageId s.world.tables.passages)
      (selectTables fun t => findRow Passage.id statement.passageId t.passages)
      (selectTables fun t => findRow Passage.id statement.passageId t.passages) :=
    mirrors_selectTables fun _ _ => ⟨hPassages, rfl⟩
  refine hFirst.bind ?_
  rintro found _ ⟨rfl, hFound⟩
  cases found with
  | none => exact mirrors_done rfl
  | some passage =>
      obtain ⟨hPassageMem, hId⟩ := findRow_some hFound.symm
      have hSources : findRow Source.id passage.sourceId s.world.tables.sources =
          findRow Source.id passage.sourceId s'.world.tables.sources :=
        Keyed.findRow_same s'.world.db.valid.sourcesKey fun row hRow =>
          own_source hSame ⟨passage, hPassageMem, hPassage passage hId, hRow.symm⟩
      have hSecond : MirroredIn s s' key (· = ·)
          (selectTables fun t => findRow Source.id passage.sourceId t.sources)
          (selectTables fun t => findRow Source.id passage.sourceId t.sources) :=
        mirrors_selectTables fun _ _ => hSources
      refine hSecond.bind ?_
      rintro source _ rfl
      cases source with
      | none => exact mirrors_done rfl
      | some source => exact mirrors_done rfl

omit hSame in
/-- A statement which is not another tenant's is the tenant's. -/
theorem owns_of_not_others {w : World} {row : Statement} (hRow : row ∈ w.tables.statements)
    (hOthers : ¬ OthersRun tenantId w.tables row.runId) : Owns tenantId w.tables row.runId := by
  obtain ⟨run, hRun, hId⟩ := w.db.valid.statementsRun row hRow
  by_contra hOwn
  exact hOthers ⟨run, hRun, hId, fun hTenant => hOwn ⟨run, hRun, hId, hTenant⟩⟩

omit hSame in
/-- The run of a statement is looked up in either store. -/
theorem mirrors_find {statementId : Uuid} :
    MirroredIn s s' key (fun found found' =>
        found = findRow Statement.id statementId s.world.tables.statements ∧
          found' = findRow Statement.id statementId s'.world.tables.statements)
      (selectTables fun t => findRow Statement.id statementId t.statements)
      (selectTables fun t => findRow Statement.id statementId t.statements) :=
  mirrors_selectTables fun _ _ => ⟨rfl, rfl⟩

omit hSame in
theorem mirrors_findRun {runId runId' : Uuid} :
    MirroredIn s s' key (fun found found' => found = findRow Run.id runId s.world.tables.runs ∧
        found' = findRow Run.id runId' s'.world.tables.runs)
      (selectTables fun t => findRow Run.id runId t.runs)
      (selectTables fun t => findRow Run.id runId' t.runs) :=
  mirrors_selectTables fun _ _ => ⟨rfl, rfl⟩

omit hSame in
/-- A statement of another tenant in both stores: 403 in both. -/
theorem mirrors_othersStatement {row row' : Statement} (hRow : row ∈ s.world.tables.statements)
    (hRow' : row' ∈ s'.world.tables.statements) (hId : row'.id = row.id)
    (hOthers : OthersRun tenantId s.world.tables row.runId)
    (hOthers' : OthersRun tenantId s'.world.tables row'.runId) :
    MirroredIn s s' key (· = ·) (Routes.getStatementTrace api row.id tenantId)
      (Routes.getStatementTrace api row.id tenantId) := by
  have hFind := s.world.db.valid.statementsKey.findRow_eq hRow
  have hFind' := s'.world.db.valid.statementsKey.findRow_eq hRow'
  rw [hId] at hFind'
  obtain ⟨run, hRun, hRunId, hTenant⟩ := hOthers
  obtain ⟨run', hRun', hRunId', hTenant'⟩ := hOthers'
  have hRunFind := s.world.db.valid.runsKey.findRow_eq hRun
  have hRunFind' := s'.world.db.valid.runsKey.findRow_eq hRun'
  rw [hRunId] at hRunFind
  rw [hRunId'] at hRunFind'
  refine Mirrors.bind mirrors_find ?_
  rintro found found' ⟨rfl, rfl⟩
  rw [hFind, hFind']
  refine Mirrors.bind mirrors_findRun ?_
  rintro found found' ⟨rfl, rfl⟩
  rw [hRunFind, hRunFind']
  dsimp only
  rw [if_pos hTenant, if_pos hTenant']
  exact mirrors_done rfl

/-- A statement which is not another tenant's in either store. -/
theorem mirrors_ownStatement {statementId : Uuid}
    (hOwn : ∀ row ∈ s.world.tables.statements, row.id = statementId →
      Owns tenantId s.world.tables row.runId)
    (hOwn' : ∀ row ∈ s'.world.tables.statements, row.id = statementId →
      Owns tenantId s'.world.tables row.runId) :
    MirroredIn s s' key (· = ·) (Routes.getStatementTrace api statementId tenantId)
      (Routes.getStatementTrace api statementId tenantId) := by
  have hFind : findRow Statement.id statementId s.world.tables.statements =
      findRow Statement.id statementId s'.world.tables.statements := by
    refine Keyed.findRow_same s'.world.db.valid.statementsKey fun row hId => ?_
    constructor
    · intro hRow
      exact (own_statement hSame (.inl (hOwn row hRow hId))).mp hRow
    · intro hRow
      exact (own_statement hSame (.inl ((owns_iff hSame _).mpr (hOwn' row hRow hId)))).mpr hRow
  refine Mirrors.bind mirrors_find ?_
  rintro found found' ⟨rfl, rfl⟩
  rw [← hFind]
  cases hFound : findRow Statement.id statementId s.world.tables.statements with
  | none => exact mirrors_done rfl
  | some row =>
      obtain ⟨hRow, hId⟩ := findRow_some hFound
      obtain ⟨run, hRun, hRunId, hTenant⟩ := hOwn row hRow hId
      have hRunFind := s.world.db.valid.runsKey.findRow_eq hRun
      have hRunFind' := s'.world.db.valid.runsKey.findRow_eq ((own_run hSame hTenant).mp hRun)
      rw [hRunId] at hRunFind hRunFind'
      refine Mirrors.bind mirrors_findRun ?_
      rintro found found' ⟨rfl, rfl⟩
      rw [hRunFind, hRunFind']
      dsimp only
      rw [if_neg (not_not_intro hTenant)]
      exact mirrors_traceOf hSame hRow (.inl (hOwn row hRow hId))

theorem mirrors_getStatementTrace {statementId : Uuid}
    (hForeign : (∃ row ∈ s.world.tables.statements, row.id = statementId ∧
        OthersRun tenantId s.world.tables row.runId) ↔
      ∃ row ∈ s'.world.tables.statements, row.id = statementId ∧
        OthersRun tenantId s'.world.tables row.runId) :
    MirroredIn s s' key (· = ·) (Routes.getStatementTrace api statementId tenantId)
      (Routes.getStatementTrace api statementId tenantId) := by
  by_cases hOther : ∃ row ∈ s.world.tables.statements, row.id = statementId ∧
      OthersRun tenantId s.world.tables row.runId
  · obtain ⟨row', hRow', hId', hOthers'⟩ := hForeign.mp hOther
    obtain ⟨row, hRow, rfl, hOthers⟩ := hOther
    exact mirrors_othersStatement hRow hRow' hId' hOthers hOthers'
  · have hOther' := hForeign.not.mp hOther
    apply mirrors_ownStatement hSame
    · intro row hRow hId
      exact owns_of_not_others hRow fun hOthers => hOther ⟨row, hRow, hId, hOthers⟩
    · intro row hRow hId
      exact owns_of_not_others hRow fun hOthers => hOther' ⟨row, hRow, hId, hOthers⟩

theorem mirrors_kbSearch (q : Option Text) :
    MirroredIn s s' key (· = ·) (Routes.kbSearch api tenantId q)
      (Routes.kbSearch api tenantId q) := by
  have hRuns : (s.world.tables.runs.filter fun run => run.tenantId = tenantId).Perm
      (s'.world.tables.runs.filter fun run => run.tenantId = tenantId) :=
    Keyed.perm_filter s.world.db.valid.runsKey s'.world.db.valid.runsKey fun run hRun =>
      own_run hSame (of_decide_eq_true hRun)
  refine Mirrors.bind (mirrors_selectRows (fun _ _ => rfl) hRuns) ?_
  rintro runs _ ⟨rfl, hFound⟩
  split
  · exact mirrors_done rfl
  have hStatement (row : Statement) (hRow : (runs.any fun run => run.id = row.runId) = true) :
      OwnsStatement tenantId s.world.tables row := by
    obtain ⟨run, hRun, hId⟩ := List.any_eq_true.mp hRow
    have hMem := List.mem_filter.mp (hFound.mem_iff.mp hRun)
    exact .inl ⟨run, hMem.1, of_decide_eq_true hId, of_decide_eq_true hMem.2⟩
  refine Mirrors.bind (mirrors_selectRows (fun _ _ => rfl) (statements_perm hSame hStatement)) ?_
  rintro statements _ ⟨rfl, hStatements⟩
  dsimp only
  split
  · exact mirrors_done rfl
  have hPassage (row : Passage) (hRow : ((statements.filter fun statement =>
      statement.status = .verified && matchesQuery api q statement).any fun statement =>
        statement.passageId = row.id) = true) : OwnsPassage tenantId s.world.tables row :=
    ownsPassage_of_any (fun statement hMem => by
      have hRows := List.mem_filter.mp (hStatements.mem_iff.mp (List.mem_filter.mp hMem).1)
      exact ⟨hRows.1, hStatement statement hRows.2⟩) hRow
  refine Mirrors.bind (mirrors_selectRows (fun _ _ => rfl) (passages_perm hSame hPassage)) ?_
  rintro passages _ ⟨rfl, hPassages⟩
  have hSource (row : Source)
      (hRow : (passages.any fun passage => passage.sourceId = row.id) = true) :
      OwnsSource tenantId s.world.tables row :=
    ownsSource_of_any (fun passage hMem => by
      have hRows := List.mem_filter.mp (hPassages.mem_iff.mp hMem)
      exact ⟨hRows.1, hPassage passage hRows.2⟩) hRow
  refine Mirrors.bind (mirrors_selectRows (fun _ _ => rfl) (sources_perm hSame hSource)) ?_
  rintro sources _ ⟨rfl, -⟩
  exact mirrors_done rfl

end Statements

/-! ## Requests -/

section Requests

variable (api : ApiPlatform) {request : ApiRequest} {s s' : Store}

/-- A store beside another, with nothing of the cache in common. -/
theorem beside_none : Beside s.world s'.world none s.world s'.world :=
  ⟨⟨_, rfl⟩, ⟨_, rfl⟩, by rintro _ ⟨⟩⟩

/-- The two stores of a tenant have the artifacts of its runs in common. -/
theorem beside_artifact {runId : Uuid}
    (hSame : s.ownedBy request.tenantId = s'.ownedBy request.tenantId)
    (hOwn : Owns request.tenantId s.world.tables runId) :
    Beside s.world s'.world (some (traceKey runId)) s.world s'.world := by
  refine ⟨⟨_, rfl⟩, ⟨_, rfl⟩, ?_⟩
  rintro _ ⟨⟩
  exact own_artifact hSame hOwn

/-- A run which has been loaded is the tenant's. -/
theorem owns_of_loaded {tenantId runId : Uuid} {t : Tables} {run : Run}
    (h : loaded runId tenantId t = .ok run) : Owns tenantId t runId :=
  ⟨run, loaded_ok h⟩

/-- The endpoints answer alike in two stores, if what is asked for belongs to another tenant in both
or in neither. -/
theorem mirrors_handle (hSame : s.ownedBy request.tenantId = s'.ownedBy request.tenantId)
    (hForeign : Foreign request s.world.tables ↔ Foreign request s'.world.tables) :
    ∃ key, Beside s.world s'.world key s.world s'.world ∧
      MirroredIn s s' key (· = ·) (request.handle api s.columns)
        (request.handle api s'.columns) := by
  obtain ⟨url, tenantId, target⟩ := request
  cases target with
  | run runId =>
      exact ⟨none, beside_none, mirrors_withRun (loaded_same hSame hForeign)
        fun run _ => mirrors_done rfl⟩
  | stages runId =>
      exact ⟨none, beside_none, mirrors_withRun (loaded_same hSame hForeign)
        fun run hRun => mirrors_getStages hSame (owns_of_loaded hRun)⟩
  | conclusions runId =>
      exact ⟨none, beside_none, mirrors_withRun (loaded_same hSame hForeign)
        fun run hRun => mirrors_getConclusions hSame (owns_of_loaded hRun)⟩
  | contradictions runId =>
      exact ⟨none, beside_none, mirrors_withRun (loaded_same hSame hForeign)
        fun run hRun => mirrors_getContradictions hSame (owns_of_loaded hRun)⟩
  | report runId =>
      -- Of the cache, only the artifact of the run matters, and only to its tenant.
      by_cases hOwn : Owns tenantId s.world.tables runId
      · exact ⟨some (traceKey runId), beside_artifact hSame hOwn,
          mirrors_withRun (loaded_same hSame hForeign)
            fun run hRun => mirrors_getReport hSame hOwn (loaded_ok hRun).2.1⟩
      · exact ⟨none, beside_none, mirrors_withRun (loaded_same hSame hForeign)
          fun run hRun => absurd (owns_of_loaded hRun) hOwn⟩
  | audit runId =>
      exact ⟨none, beside_none, mirrors_withRun (loaded_same hSame hForeign)
        fun run hRun => mirrors_getAudit hSame (owns_of_loaded hRun)⟩
  | statementTrace statementId =>
      exact ⟨none, beside_none, mirrors_getStatementTrace hSame hForeign⟩
  | kbSearch q =>
      refine ⟨none, beside_none, (mirrors_kbSearch hSame _).bind ?_⟩
      rintro body _ rfl
      exact mirrors_done rfl

/-- The responses to a request, errors included. -/
theorem mirrors_respond (hSame : s.ownedBy request.tenantId = s'.ownedBy request.tenantId)
    (hForeign : Foreign request s.world.tables ↔ Foreign request s'.world.tables) :
    ∃ key, Beside s.world s'.world key s.world s'.world ∧
      MirroredIn s s' key (· = ·) (request.respond api s.columns)
        (request.respond api s'.columns) := by
  obtain ⟨key, hBeside, hHandle⟩ := mirrors_handle api hSame hForeign
  refine ⟨key, hBeside, Mirrors.tryCatch (hHandle.bind ?_) fun _ => mirrors_done rfl⟩
  rintro result _ rfl
  exact mirrors_done rfl

end Requests

end Ecrke
