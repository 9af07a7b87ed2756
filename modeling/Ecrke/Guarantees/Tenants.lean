import Ecrke.Api.Endpoints
import Ecrke.Durable.Mirrored
import Ecrke.Guarantees.Fallback
import Ecrke.Guarantees.Provenance

/-!
# The rows of a tenant

A store is the database as the API reads it.  Two stores have the same rows of a tenant if they
agree in the rows of its runs and in those which these refer to; in closed runs the latter are rows
of the runs as well.  The queries of the API find the same rows in two such stores.

* `Store`, `Owns`, `Store.ownedBy` -- the rows of a tenant.
* `ClosedFor.ownedBy_same` -- closed runs refer to their own rows only.
* `own_run` ... `own_artifact`, `evidence_perm` ... `sources_perm` -- what two stores share.
* `Beside` -- two states which have come from such stores by changes to the cache.
* `mirrors_selectTables` ... `mirrors_kvGet` -- queries and look-ups in two such states.
-/

namespace Ecrke

open Durable

/-- The database as the API reads it. -/
structure Store where
  world : World
  columns : Columns

/-! ## The rows of a tenant -/

/-- A run of the tenant. -/
def Owns (tenantId : Uuid) (t : Tables) (runId : Uuid) : Prop :=
  ∃ run ∈ t.runs, run.id = runId ∧ run.tenantId = tenantId

/-- A citation in a conclusion of the tenant. -/
def OwnsEvidence (tenantId : Uuid) (t : Tables) (link : ConclusionEvidence) : Prop :=
  ∃ row ∈ t.conclusions, Owns tenantId t row.runId ∧ link.conclusionId = row.id

/-- A statement of a run of the tenant, or one which a conclusion of the tenant cites. -/
def OwnsStatement (tenantId : Uuid) (t : Tables) (row : Statement) : Prop :=
  Owns tenantId t row.runId ∨
    ∃ link ∈ t.conclusionEvidence, OwnsEvidence tenantId t link ∧ link.statementId = row.id

/-- A passage which a statement of the tenant has been extracted from. -/
def OwnsPassage (tenantId : Uuid) (t : Tables) (row : Passage) : Prop :=
  ∃ statement ∈ t.statements, OwnsStatement tenantId t statement ∧ statement.passageId = row.id

/-- A source of such a passage. -/
def OwnsSource (tenantId : Uuid) (t : Tables) (row : Source) : Prop :=
  ∃ passage ∈ t.passages, OwnsPassage tenantId t passage ∧ passage.sourceId = row.id

theorem ownsPassage_of_any {tenantId : Uuid} {t : Tables} {statements : List Statement}
    {row : Passage}
    (hOwned : ∀ s ∈ statements, s ∈ t.statements ∧ OwnsStatement tenantId t s)
    (h : (statements.any fun s => s.passageId = row.id) = true) : OwnsPassage tenantId t row := by
  obtain ⟨statement, hStatement, hId⟩ := List.any_eq_true.mp h
  obtain ⟨hMem, hOwn⟩ := hOwned statement hStatement
  exact ⟨statement, hMem, hOwn, of_decide_eq_true hId⟩

theorem ownsSource_of_any {tenantId : Uuid} {t : Tables} {passages : List Passage} {row : Source}
    (hOwned : ∀ passage ∈ passages, passage ∈ t.passages ∧ OwnsPassage tenantId t passage)
    (h : (passages.any fun passage => passage.sourceId = row.id) = true) :
    OwnsSource tenantId t row := by
  obtain ⟨passage, hPassage, hId⟩ := List.any_eq_true.mp h
  obtain ⟨hMem, hOwn⟩ := hOwned passage hPassage
  exact ⟨passage, hMem, hOwn, of_decide_eq_true hId⟩

/-- The key of the artifact of a run. -/
def traceKey (runId : Uuid) : Text := "trace:".toList ++ runId.str

/-- The rows of the runs of a tenant, with the rows which these refer to. -/
@[ext]
structure OwnRows where
  runs : Set Run
  checkpoints : Set (Checkpoint × Instant)
  conclusions : Set Conclusion
  conclusionEvidence : Set (ConclusionEvidence × Option Uuid)
  statements : Set Statement
  passages : Set Passage
  sources : Set Source
  evidenceLinks : Set EvidenceLink
  contradictions : Set Contradiction
  auditTrace : Set AuditTrace
  artifacts : Set KVEntry

/-- The rows of a table which are owned. -/
def owned {ρ : Type} (rows : List ρ) (P : ρ → Prop) : Set ρ := {row | row ∈ rows ∧ P row}

/-- The rows of a table which are owned, with a column which is kept aside. -/
def ownedWith {ρ γ : Type} (rows : List ρ) (P : ρ → Prop) (column : ρ → γ) : Set (ρ × γ) :=
  {row | row.1 ∈ rows ∧ P row.1 ∧ row.2 = column row.1}

/-- The rows of a tenant in a store. -/
def Store.ownedBy (tenantId : Uuid) (s : Store) : OwnRows :=
  let t := s.world.tables
  { runs := owned t.runs fun row => row.tenantId = tenantId
    checkpoints := ownedWith t.checkpoints (fun row => Owns tenantId t row.runId)
      fun row => s.columns.checkpointTs row.id
    conclusions := owned t.conclusions fun row => Owns tenantId t row.runId
    conclusionEvidence :=
      ownedWith t.conclusionEvidence (OwnsEvidence tenantId t) s.columns.findingId
    statements := owned t.statements (OwnsStatement tenantId t)
    passages := owned t.passages (OwnsPassage tenantId t)
    sources := owned t.sources (OwnsSource tenantId t)
    evidenceLinks := owned t.evidenceLinks fun row => Owns tenantId t row.runId
    contradictions := owned t.contradictions fun row => Owns tenantId t row.runId
    auditTrace := owned t.auditTrace fun row => Owns tenantId t row.runId
    artifacts := owned t.kvCache fun row =>
      ∃ runId, Owns tenantId t runId ∧ row.key = traceKey runId }

/-! ### Closed runs -/

/-- The rows of the runs of a tenant, without those which they refer to.  A passage belongs to the
run of its source. -/
def Store.ownRuns (tenantId : Uuid) (s : Store) : OwnRows :=
  let t := s.world.tables
  { s.ownedBy tenantId with
    statements := owned t.statements fun row => Owns tenantId t row.runId
    passages := owned t.passages fun row =>
      ∃ source ∈ t.sources, source.id = row.sourceId ∧ Owns tenantId t source.runId
    sources := owned t.sources fun row => Owns tenantId t row.runId }

/-- Those of the rows which statements lead to. -/
def OwnRows.reached (rows : OwnRows) : OwnRows :=
  let passages :=
    {row ∈ rows.passages | ∃ statement ∈ rows.statements, statement.passageId = row.id}
  { rows with
    passages
    sources := {row ∈ rows.sources | ∃ passage ∈ passages, passage.sourceId = row.id} }

/-- The runs of a tenant are closed. -/
def ClosedFor (tenantId : Uuid) (t : Tables) : Prop :=
  ∀ runId, Owns tenantId t runId → ProvenanceClosed runId t

section Closed

variable {tenantId : Uuid} {s s' : Store}

/-- A statement which a conclusion of the tenant cites belongs to the run of the conclusion. -/
theorem ClosedFor.statement (h : ClosedFor tenantId s.world.tables) {row : Statement}
    (hRow : row ∈ s.world.tables.statements) (hOwn : OwnsStatement tenantId s.world.tables row) :
    Owns tenantId s.world.tables row.runId := by
  rcases hOwn with hRun | ⟨link, hLink, ⟨conclusion, hConclusion, hRun, hCites⟩, hId⟩
  · exact hRun
  · have hClosed := (h _ hRun).conclusions conclusion hConclusion rfl
    obtain ⟨cited, hCited, hCitedId, hCitedRun, -⟩ := hClosed.verified link hLink hCites
    obtain rfl := s.world.db.valid.statementsKey.eq hCited hRow (hCitedId.trans hId)
    rwa [hCitedRun]

/-- A passage of a statement of the tenant belongs to a source of the run. -/
theorem ClosedFor.passage (h : ClosedFor tenantId s.world.tables) {row : Passage}
    (hRow : row ∈ s.world.tables.passages) (hOwn : OwnsPassage tenantId s.world.tables row) :
    ∃ source ∈ s.world.tables.sources, source.id = row.sourceId ∧
      Owns tenantId s.world.tables source.runId := by
  obtain ⟨statement, hStatement, hOwned, hId⟩ := hOwn
  have hRun := h.statement hStatement hOwned
  obtain ⟨passage, hPassage, hMem, source, hSource, hSourceId, hSourceRun⟩ :=
    (h _ hRun).statements statement hStatement rfl
  obtain rfl := s.world.db.valid.passagesKey.eq hMem hRow (hPassage.trans hId)
  exact ⟨source, hSource, hSourceId, hSourceRun ▸ hRun⟩

theorem ClosedFor.source (h : ClosedFor tenantId s.world.tables) {row : Source}
    (hRow : row ∈ s.world.tables.sources) (hOwn : OwnsSource tenantId s.world.tables row) :
    Owns tenantId s.world.tables row.runId := by
  obtain ⟨passage, hPassage, hOwned, hId⟩ := hOwn
  obtain ⟨source, hSource, hSourceId, hRun⟩ := h.passage hPassage hOwned
  obtain rfl := s.world.db.valid.sourcesKey.eq hSource hRow (hSourceId.trans hId)
  exact hRun

/-- Where the runs of a tenant are closed, they refer to rows of their own only. -/
theorem ClosedFor.ownedBy_eq (h : ClosedFor tenantId s.world.tables) :
    s.ownedBy tenantId = (s.ownRuns tenantId).reached := by
  ext1
  · rfl
  · rfl
  · rfl
  · rfl
  · ext row
    constructor
    · rintro ⟨hRow, hOwn⟩
      exact ⟨hRow, h.statement hRow hOwn⟩
    · rintro ⟨hRow, hRun⟩
      exact ⟨hRow, .inl hRun⟩
  · ext row
    constructor
    · rintro ⟨hRow, statement, hStatement, hOwn, hId⟩
      exact ⟨⟨hRow, h.passage hRow ⟨statement, hStatement, hOwn, hId⟩⟩, statement,
        ⟨hStatement, h.statement hStatement hOwn⟩, hId⟩
    · rintro ⟨⟨hRow, -⟩, statement, ⟨hStatement, hRun⟩, hId⟩
      exact ⟨hRow, statement, hStatement, .inl hRun, hId⟩
  · ext row
    constructor
    · rintro ⟨hRow, passage, hPassage, ⟨statement, hStatement, hOwn, hId⟩, hSource⟩
      exact ⟨⟨hRow, h.source hRow ⟨passage, hPassage, ⟨statement, hStatement, hOwn, hId⟩, hSource⟩⟩,
        passage, ⟨⟨hPassage, h.passage hPassage ⟨statement, hStatement, hOwn, hId⟩⟩, statement,
          ⟨hStatement, h.statement hStatement hOwn⟩, hId⟩, hSource⟩
    · rintro ⟨⟨hRow, -⟩, passage, ⟨⟨hPassage, -⟩, statement, ⟨hStatement, hRun⟩, hId⟩, hSource⟩
      exact ⟨hRow, passage, hPassage, ⟨statement, hStatement, .inl hRun, hId⟩, hSource⟩
  · rfl
  · rfl
  · rfl
  · rfl

/-- Where the runs of a tenant are closed, stores with the same rows of its runs have the same rows
which these refer to. -/
theorem ClosedFor.ownedBy_same (h : ClosedFor tenantId s.world.tables)
    (h' : ClosedFor tenantId s'.world.tables) (hSame : s.ownRuns tenantId = s'.ownRuns tenantId) :
    s.ownedBy tenantId = s'.ownedBy tenantId := by
  rw [h.ownedBy_eq, h'.ownedBy_eq, hSame]

end Closed

/-! ## Stores with the same rows -/

/-- The rows which are owned, where two tables have the same owned rows. -/
theorem mem_iff_of_owned {ρ : Type} {rows rows' : List ρ} {P P' : ρ → Prop}
    (h : owned rows P = owned rows' P') (hP : ∀ row, P row ↔ P' row) {row : ρ} (hOwn : P row) :
    row ∈ rows ↔ row ∈ rows' := by
  have hRow := Set.ext_iff.mp h row
  simpa only [owned, Set.mem_ofPred_eq, hOwn, (hP row).mp hOwn, and_true] using hRow

/-- The same with a column which is kept aside. -/
theorem mem_iff_of_column {ρ γ : Type} {rows rows' : List ρ} {P P' : ρ → Prop}
    {column column' : ρ → γ} (h : ownedWith rows P column = ownedWith rows' P' column')
    (hP : ∀ row, P row ↔ P' row) {row : ρ} (hOwn : P row) :
    (row ∈ rows ↔ row ∈ rows') ∧ (row ∈ rows → column row = column' row) := by
  have hLeft (hRow : row ∈ rows) : row ∈ rows' ∧ column row = column' row := by
    have hPair : (row, column row) ∈ ownedWith rows' P' column' := h ▸ ⟨hRow, hOwn, rfl⟩
    exact ⟨hPair.1, hPair.2.2⟩
  have hRight (hRow : row ∈ rows') : row ∈ rows := by
    have hPair : (row, column' row) ∈ ownedWith rows P column := h ▸ ⟨hRow, (hP row).mp hOwn, rfl⟩
    exact hPair.1
  exact ⟨⟨fun hRow => (hLeft hRow).1, hRight⟩, fun hRow => (hLeft hRow).2⟩

section Own

variable {tenantId : Uuid} {s s' : Store} (hSame : s.ownedBy tenantId = s'.ownedBy tenantId)

include hSame

theorem own_run {run : Run} (h : run.tenantId = tenantId) :
    run ∈ s.world.tables.runs ↔ run ∈ s'.world.tables.runs :=
  mem_iff_of_owned (congrArg OwnRows.runs hSame) (fun _ => Iff.rfl) h

theorem owns_iff (runId : Uuid) :
    Owns tenantId s.world.tables runId ↔ Owns tenantId s'.world.tables runId := by
  constructor
  · rintro ⟨run, hRun, hId, hTenant⟩
    exact ⟨run, (own_run hSame hTenant).mp hRun, hId, hTenant⟩
  · rintro ⟨run, hRun, hId, hTenant⟩
    exact ⟨run, (own_run hSame hTenant).mpr hRun, hId, hTenant⟩

theorem own_checkpoint {row : Checkpoint} (h : Owns tenantId s.world.tables row.runId) :
    (row ∈ s.world.tables.checkpoints ↔ row ∈ s'.world.tables.checkpoints) ∧
      (row ∈ s.world.tables.checkpoints →
        s.columns.checkpointTs row.id = s'.columns.checkpointTs row.id) := by
  have hRows := congrArg OwnRows.checkpoints hSame
  dsimp only [Store.ownedBy] at hRows
  exact mem_iff_of_column hRows (fun row => owns_iff hSame row.runId) h

theorem own_conclusion {row : Conclusion} (h : Owns tenantId s.world.tables row.runId) :
    row ∈ s.world.tables.conclusions ↔ row ∈ s'.world.tables.conclusions :=
  mem_iff_of_owned (congrArg OwnRows.conclusions hSame) (fun row => owns_iff hSame row.runId) h

theorem ownsEvidence_iff (link : ConclusionEvidence) :
    OwnsEvidence tenantId s.world.tables link ↔ OwnsEvidence tenantId s'.world.tables link := by
  constructor
  · rintro ⟨row, hRow, hOwn, hLink⟩
    exact ⟨row, (own_conclusion hSame hOwn).mp hRow, (owns_iff hSame _).mp hOwn, hLink⟩
  · rintro ⟨row, hRow, hOwn, hLink⟩
    have hFirst := (owns_iff hSame _).mpr hOwn
    exact ⟨row, (own_conclusion hSame hFirst).mpr hRow, hFirst, hLink⟩

theorem own_evidence {link : ConclusionEvidence} (h : OwnsEvidence tenantId s.world.tables link) :
    (link ∈ s.world.tables.conclusionEvidence ↔ link ∈ s'.world.tables.conclusionEvidence) ∧
      (link ∈ s.world.tables.conclusionEvidence →
        s.columns.findingId link = s'.columns.findingId link) :=
  mem_iff_of_column (congrArg OwnRows.conclusionEvidence hSame) (ownsEvidence_iff hSame) h

theorem ownsStatement_iff (row : Statement) :
    OwnsStatement tenantId s.world.tables row ↔ OwnsStatement tenantId s'.world.tables row := by
  refine or_congr (owns_iff hSame _) ?_
  constructor
  · rintro ⟨link, hLink, hOwn, hCited⟩
    exact ⟨link, (own_evidence hSame hOwn).1.mp hLink, (ownsEvidence_iff hSame _).mp hOwn, hCited⟩
  · rintro ⟨link, hLink, hOwn, hCited⟩
    have hFirst := (ownsEvidence_iff hSame _).mpr hOwn
    exact ⟨link, (own_evidence hSame hFirst).1.mpr hLink, hFirst, hCited⟩

theorem own_statement {row : Statement} (h : OwnsStatement tenantId s.world.tables row) :
    row ∈ s.world.tables.statements ↔ row ∈ s'.world.tables.statements :=
  mem_iff_of_owned (congrArg OwnRows.statements hSame) (ownsStatement_iff hSame) h

theorem ownsPassage_iff (row : Passage) :
    OwnsPassage tenantId s.world.tables row ↔ OwnsPassage tenantId s'.world.tables row := by
  constructor
  · rintro ⟨statement, hStatement, hOwn, hPassage⟩
    exact ⟨statement, (own_statement hSame hOwn).mp hStatement, (ownsStatement_iff hSame _).mp hOwn,
      hPassage⟩
  · rintro ⟨statement, hStatement, hOwn, hPassage⟩
    have hFirst := (ownsStatement_iff hSame _).mpr hOwn
    exact ⟨statement, (own_statement hSame hFirst).mpr hStatement, hFirst, hPassage⟩

theorem own_passage {row : Passage} (h : OwnsPassage tenantId s.world.tables row) :
    row ∈ s.world.tables.passages ↔ row ∈ s'.world.tables.passages :=
  mem_iff_of_owned (congrArg OwnRows.passages hSame) (ownsPassage_iff hSame) h

theorem ownsSource_iff (row : Source) :
    OwnsSource tenantId s.world.tables row ↔ OwnsSource tenantId s'.world.tables row := by
  constructor
  · rintro ⟨passage, hPassage, hOwn, hSource⟩
    exact ⟨passage, (own_passage hSame hOwn).mp hPassage, (ownsPassage_iff hSame _).mp hOwn,
      hSource⟩
  · rintro ⟨passage, hPassage, hOwn, hSource⟩
    have hFirst := (ownsPassage_iff hSame _).mpr hOwn
    exact ⟨passage, (own_passage hSame hFirst).mpr hPassage, hFirst, hSource⟩

theorem own_source {row : Source} (h : OwnsSource tenantId s.world.tables row) :
    row ∈ s.world.tables.sources ↔ row ∈ s'.world.tables.sources :=
  mem_iff_of_owned (congrArg OwnRows.sources hSame) (ownsSource_iff hSame) h

theorem own_evidenceLink {row : EvidenceLink} (h : Owns tenantId s.world.tables row.runId) :
    row ∈ s.world.tables.evidenceLinks ↔ row ∈ s'.world.tables.evidenceLinks :=
  mem_iff_of_owned (congrArg OwnRows.evidenceLinks hSame) (fun row => owns_iff hSame row.runId) h

theorem own_contradiction {row : Contradiction} (h : Owns tenantId s.world.tables row.runId) :
    row ∈ s.world.tables.contradictions ↔ row ∈ s'.world.tables.contradictions :=
  mem_iff_of_owned (congrArg OwnRows.contradictions hSame) (fun row => owns_iff hSame row.runId) h

theorem own_audit {row : AuditTrace} (h : Owns tenantId s.world.tables row.runId) :
    row ∈ s.world.tables.auditTrace ↔ row ∈ s'.world.tables.auditTrace :=
  mem_iff_of_owned (congrArg OwnRows.auditTrace hSame) (fun row => owns_iff hSame row.runId) h

/-- The artifact of a run of the tenant. -/
theorem own_artifact {runId : Uuid} (h : Owns tenantId s.world.tables runId) :
    findRow KVEntry.key (traceKey runId) s.world.tables.kvCache =
      findRow KVEntry.key (traceKey runId) s'.world.tables.kvCache := by
  refine Keyed.findRow_same s'.world.db.valid.kvKey fun row hKey => ?_
  refine mem_iff_of_owned (congrArg OwnRows.artifacts hSame) (fun row => ?_) ⟨runId, h, hKey⟩
  exact exists_congr fun runId => and_congr_left fun _ => owns_iff hSame runId

/-! ### Queries for owned rows -/

theorem evidence_perm {p : ConclusionEvidence → Bool}
    (h : ∀ row, p row = true → OwnsEvidence tenantId s.world.tables row) :
    (s.world.tables.conclusionEvidence.filter p).Perm
      (s'.world.tables.conclusionEvidence.filter p) :=
  Keyed.perm_filter s.world.db.valid.evidenceKey s'.world.db.valid.evidenceKey
    fun row hRow => (own_evidence hSame (h row hRow)).1

theorem statements_perm {p : Statement → Bool}
    (h : ∀ row, p row = true → OwnsStatement tenantId s.world.tables row) :
    (s.world.tables.statements.filter p).Perm (s'.world.tables.statements.filter p) :=
  Keyed.perm_filter s.world.db.valid.statementsKey s'.world.db.valid.statementsKey
    fun row hRow => own_statement hSame (h row hRow)

theorem passages_perm {p : Passage → Bool}
    (h : ∀ row, p row = true → OwnsPassage tenantId s.world.tables row) :
    (s.world.tables.passages.filter p).Perm (s'.world.tables.passages.filter p) :=
  Keyed.perm_filter s.world.db.valid.passagesKey s'.world.db.valid.passagesKey
    fun row hRow => own_passage hSame (h row hRow)

theorem sources_perm {p : Source → Bool}
    (h : ∀ row, p row = true → OwnsSource tenantId s.world.tables row) :
    (s.world.tables.sources.filter p).Perm (s'.world.tables.sources.filter p) :=
  Keyed.perm_filter s.world.db.valid.sourcesKey s'.world.db.valid.sourcesKey
    fun row hRow => own_source hSame (h row hRow)

end Own

/-! ## Two states beside each other -/

/-- What is heard of a run: all but the orders in which queries return rows. -/
def withoutOrder : Happening Vocabulary → Option (Happening Vocabulary)
  | .asked (.rowOrder _) _ => none
  | happening => some happening

/-- Two states which have come from two others by changes to the cache, and which agree in certain
entries of it. -/
structure Beside (s s' : World) (key : Option Text) (w w' : World) : Prop where
  left : ∃ kvCache, w.tables = { s.tables with kvCache }
  right : ∃ kvCache, w'.tables = { s'.tables with kvCache }
  entry : ∀ k ∈ key,
    findRow KVEntry.key k w.tables.kvCache = findRow KVEntry.key k w'.tables.kvCache

section Rules

variable {s s' : World} {key : Option Text} {α β ρ : Type}

/-- An entry which is removed from both caches. -/
theorem Beside.delete {k : Text} {w w' v v' : World} (h : Beside s s' (some k) w w')
    (hLeft : v.tables = w.tables.after [.deleteKVEntry k])
    (hRight : v'.tables = w'.tables.after [.deleteKVEntry k]) : Beside s s' (some k) v v' := by
  obtain ⟨⟨kvCache, hFirst⟩, ⟨kvCache', hSecond⟩, -⟩ := h
  have hGone (t : Tables) :
      findRow KVEntry.key k (t.after [.deleteKVEntry k]).kvCache = none := by
    apply List.find?_eq_none.mpr
    intro row hRow
    simpa using (List.mem_filter.mp hRow).2
  refine ⟨⟨_, by rw [hLeft, hFirst]; rfl⟩, ⟨_, by rw [hRight, hSecond]; rfl⟩, ?_⟩
  rintro _ ⟨⟩
  rw [hLeft, hRight, hGone, hGone]

theorem mirrors_selectTables {V : α → β → Prop} {f : Tables → α} {f' : Tables → β}
    (h : ∀ kvCache kvCache', V (f { s.tables with kvCache })
      (f' { s'.tables with kvCache := kvCache' })) :
    Mirrors withoutOrder (Beside s s' key) V (selectTables f) (selectTables f') := by
  refine mirrors_select fun w w' hBeside => ?_
  obtain ⟨kvCache, hLeft⟩ := hBeside.left
  obtain ⟨kvCache', hRight⟩ := hBeside.right
  rw [hLeft, hRight]
  exact h kvCache kvCache'

/-- A query which finds the same rows may return them in the same order. -/
theorem mirrors_selectRows {f : Tables → List ρ}
    (hCache : ∀ (t : Tables) kvCache, f { t with kvCache } = f t)
    (hPerm : (f s.tables).Perm (f s'.tables)) :
    Mirrors withoutOrder (Beside s s' key)
      (fun found found' => found = found' ∧ found.Perm (f s.tables)) (selectRows f)
      (selectRows f) := by
  have hFound : Mirrors withoutOrder (Beside s s' key)
      (fun found found' => found = f s.tables ∧ found' = f s'.tables) (selectTables f)
      (selectTables f) :=
    mirrors_selectTables fun kvCache kvCache' => ⟨hCache _ kvCache, hCache _ kvCache'⟩
  refine hFound.bind ?_
  rintro _ _ ⟨rfl, rfl⟩
  refine ⟨.rowOrder (f s'.tables).length, _, rfl, fun order => ?_⟩
  have hOrdered : (arrange (f s.tables) order).Perm (f s'.tables) := perm_arrange.trans hPerm
  -- The other query is answered with the order in which it returns its rows like this one.
  obtain ⟨order', hSame⟩ := exists_arrange hOrdered
  exact ⟨order', rfl, mirrors_done ⟨hSame.symm, perm_arrange⟩⟩

theorem mirrors_selectBy {κ : Type} {keys : List κ} {f : Tables → List ρ}
    (hCache : ∀ (t : Tables) kvCache, f { t with kvCache } = f t)
    (hPerm : (f s.tables).Perm (f s'.tables)) (hNone : keys = [] → f s.tables = []) :
    Mirrors withoutOrder (Beside s s' key)
      (fun found found' => found = found' ∧ found.Perm (f s.tables)) (selectBy keys f)
      (selectBy keys f) := by
  unfold selectBy
  split
  · rename_i hEmpty
    refine mirrors_done ⟨rfl, ?_⟩
    rw [hNone (List.isEmpty_iff.mp hEmpty)]
  · exact mirrors_selectRows hCache hPerm

/-- A look-up removes an entry which has expired from both caches. -/
theorem mirrors_kvGet (k : Text) :
    Mirrors withoutOrder (Beside s s' (some k)) (· = ·) (KVCache.get k) (KVCache.get k) := by
  have hEntry : Mirrors withoutOrder (Beside s s' (some k)) (· = ·) (KVCache.entry k)
      (KVCache.entry k) :=
    mirrors_select fun w w' hBeside => hBeside.entry k rfl
  have hDelete : Mirrors withoutOrder (Beside s s' (some k)) (· = ·)
      (commitWrites [.deleteKVEntry k]) (commitWrites [.deleteKVEntry k]) := by
    refine mirrors_commit ?_ ?_
    · intro w w' value t hBeside hRun
      obtain ⟨db, hDb⟩ := Database.applyAll_delete w'.db k
      refine ⟨(), { w' with db }, ?_, ?_, rfl⟩
      · simp only [hDb]
      · exact hBeside.delete (applied_tables hRun) (Database.applyAll_ok hDb)
    · intro w w' error _ hRun
      obtain ⟨db, hDb⟩ := Database.applyAll_delete w.db k
      simp only [hDb] at hRun
      cases hRun
  refine hEntry.bind ?_
  rintro found _ rfl
  -- An entry which has expired is removed from both caches, at the same time of the clock.
  cases found with
  | none => exact mirrors_done rfl
  | some found =>
      dsimp only
      split
      · exact mirrors_done rfl
      · have hNow : Mirrors withoutOrder (Beside s s' (some k)) (· = ·) now now :=
          mirrors_query (S := Vocabulary) .now
        refine hNow.bind ?_
        rintro clock _ rfl
        split
        · refine hDelete.bind ?_
          rintro _ _ -
          exact mirrors_done rfl
        · exact mirrors_done rfl

end Rules

end Ecrke
