import Ecrke.Api.Routes
import Ecrke.Guarantees.Conclusions
import Ecrke.Guarantees.Report
import Ecrke.Guarantees.Verification
import Mathlib.Data.List.Induction

/-!
# The report which is made from rows

Where neither the trace artifact nor the conclude checkpoint is there, the report endpoint makes a
report from the rows of the run.  Its scores are those of the links which the database returns last;
its flags are the defaults.

* `FoundRows`, `reportFromRows_done`, `yields_reportFromRows` -- what the queries find, and the report.
* `LatestScore`, `latestScore_iff` -- the score of the latest verify link of a statement.
* `scores_agree_iff` -- when the report shows these scores, whatever the order of the rows.
-/

namespace Ecrke

open Durable

/-! ## The rows of the queries -/

/-- What the queries of the endpoint find, in the order of the database. -/
structure FoundRows where
  conclusions : List Conclusion
  links : List ConclusionEvidence
  statements : List Statement
  passages : List Passage
  sources : List Source
  scores : List EvidenceLink

/-- The rows are those which the tables have for a run. -/
structure FoundRows.Of (found : FoundRows) (runId : Uuid) (t : Tables) : Prop where
  conclusions : found.conclusions.Perm (t.conclusions.filter fun c => c.runId = runId)
  links : found.links.Perm (t.conclusionEvidence.filter fun link =>
    found.conclusions.any fun c => c.id = link.conclusionId)
  statements : found.statements.Perm (t.statements.filter fun row =>
    found.links.any fun link => link.statementId = row.id)
  passages : found.passages.Perm (t.passages.filter fun row =>
    found.statements.any fun s => s.passageId = row.id)
  sources : found.sources.Perm (t.sources.filter fun row =>
    found.passages.any fun passage => passage.sourceId = row.id)
  scores : found.scores.Perm (t.evidenceLinks.filter fun l => l.runId = runId)

/-- The conclusions of the report. -/
def FoundRows.entries (p : Platform) (found : FoundRows) : Except PyError (List ReportConclusion) :=
  found.conclusions.mapM
    (conclusionFromRows p found.links found.statements found.passages found.sources found.scores)

/-- The queries may find the links of the run in any order. -/
theorem FoundRows.exists_of (runId : Uuid) (t : Tables) {scores : List EvidenceLink}
    (h : scores.Perm (t.evidenceLinks.filter fun l => l.runId = runId)) :
    ∃ found : FoundRows, found.Of runId t ∧ found.scores = scores := by
  let conclusions := t.conclusions.filter fun c => c.runId = runId
  let links := t.conclusionEvidence.filter fun link =>
    conclusions.any fun c => c.id = link.conclusionId
  let statements := t.statements.filter fun row => links.any fun link => link.statementId = row.id
  let passages := t.passages.filter fun row => statements.any fun s => s.passageId = row.id
  let sources := t.sources.filter fun row =>
    passages.any fun passage => passage.sourceId = row.id
  exact ⟨⟨conclusions, links, statements, passages, sources, scores⟩,
    ⟨.refl _, .refl _, .refl _, .refl _, .refl _, h⟩, rfl⟩

section Queries

variable {p : Platform} {run : Run} {s t : World} {log : Log Vocabulary}

/-- A query which is left out where it would find nothing. -/
theorem selectBy_done {ρ κ : Type} {keys : List κ} {f : Tables → List ρ} {rows : List ρ}
    (hNone : keys = [] → f s.tables = [])
    (h : Exec (selectBy keys f) s log (.done rows) t) :
    t = s ∧ rows.Perm (f s.tables) := by
  unfold selectBy at h
  split at h
  · rename_i hEmpty
    obtain ⟨-, hDone, rfl⟩ := Exec.of_done h
    cases hDone
    rw [hNone (List.isEmpty_iff.mp hEmpty)]
    exact ⟨rfl, .refl _⟩
  · exact selectRows_done h

theorem yields_selectBy {ρ κ : Type} {keys : List κ} {f : Tables → List ρ} {rows : List ρ}
    (hNone : keys = [] → f s.tables = []) (h : rows.Perm (f s.tables)) :
    Yields (selectBy keys f) s rows := by
  unfold selectBy
  split
  · rename_i hEmpty
    rw [hNone (List.isEmpty_iff.mp hEmpty)] at h
    obtain rfl := h.eq_nil
    exact yields_done []
  · exact yields_selectRows h

/-- The report is made of what the queries find. -/
theorem reportFromRows_done {report : Report}
    (h : Exec (reportFromRows p run) s log (.done report) t) :
    t = s ∧ ∃ found : FoundRows, found.Of run.id s.tables ∧
      found.entries p = .ok report.conclusions := by
  obtain ⟨conclusions, _, _, u, -, hConclusions, hRest⟩ := Exec.of_bind_done h
  obtain ⟨rfl, hConclusions⟩ := selectRows_done hConclusions
  dsimp only at hRest
  split at hRest
  · rename_i hEmpty
    obtain rfl := List.isEmpty_iff.mp hEmpty
    rcases Exec.of_query hRest with ⟨-, hOpen, -⟩ | ⟨clock, _, -, hLast⟩
    · cases hOpen
    · obtain ⟨-, hDone, rfl⟩ := Exec.of_done hLast
      have hReport := congrArg Report.conclusions (Prog.done.inj hDone)
      refine ⟨rfl, ⟨[], [], [], [], [], _⟩, ⟨hConclusions, ?_, ?_, ?_, ?_, .refl _⟩, ?_⟩
      · simp
      · simp
      · simp
      · simp
      · rw [hReport]
        rfl
  · obtain ⟨links, _, _, v, -, hFirst, hAfterLinks⟩ := Exec.of_bind_done hRest
    obtain ⟨rfl, hLinks⟩ := selectRows_done hFirst
    obtain ⟨statements, _, _, w, -, hSecond, hAfterStatements⟩ := Exec.of_bind_done hAfterLinks
    obtain ⟨rfl, hStatements⟩ := selectBy_done (by rintro rfl; simp) hSecond
    obtain ⟨passages, _, _, x, -, hThird, hAfterPassages⟩ := Exec.of_bind_done hAfterStatements
    obtain ⟨rfl, hPassages⟩ := selectBy_done (by rintro rfl; simp) hThird
    obtain ⟨sources, _, _, y, -, hFourth, hAfterSources⟩ := Exec.of_bind_done hAfterPassages
    obtain ⟨rfl, hSources⟩ := selectBy_done (by rintro rfl; simp) hFourth
    obtain ⟨scores, _, _, z, -, hFifth, hAfterScores⟩ := Exec.of_bind_done hAfterSources
    obtain ⟨rfl, hScores⟩ := selectRows_done hFifth
    obtain ⟨entries, _, _, end_, -, hMade, hLater⟩ := Exec.of_bind_done hAfterScores
    obtain ⟨rfl, hEntries⟩ := ofExcept_done hMade
    rcases Exec.of_query hLater with ⟨-, hOpen, -⟩ | ⟨clock, _, -, hLast⟩
    · cases hOpen
    · obtain ⟨-, hDone, rfl⟩ := Exec.of_done hLast
      have hReport := congrArg Report.conclusions (Prog.done.inj hDone)
      refine ⟨rfl, ⟨conclusions, links, statements, passages, sources, scores⟩,
        ⟨hConclusions, hLinks, hStatements, hPassages, hSources, hScores⟩, ?_⟩
      rw [hReport]
      exact hEntries

/-- Whatever the order of the rows, the report is made if no URL in it is malformed. -/
theorem yields_reportFromRows {found : FoundRows} {entries : List ReportConclusion}
    (hOf : found.Of run.id s.tables) (hEntries : found.entries p = .ok entries) :
    ∃ report, Yields (reportFromRows p run) s report ∧ report.conclusions = entries := by
  refine ⟨{ runId := run.id.str, topic := redactSecrets p.unicode run.question
            generatedAt := (0 : Instant), conclusions := entries }, ?_, rfl⟩
  refine Yields.bind (yields_selectRows hOf.conclusions) ?_
  dsimp only
  split
  · rename_i hEmpty
    have hNone : entries = [] := by
      unfold FoundRows.entries at hEntries
      rw [List.isEmpty_iff.mp hEmpty] at hEntries
      exact (Except.ok.inj hEntries).symm
    rw [hNone]
    exact Yields.bind (yields_query .now _) (yields_done _)
  · refine Yields.bind (yields_selectRows hOf.links) ?_
    refine Yields.bind (yields_selectBy (by intro h; simp [h]) hOf.statements) ?_
    refine Yields.bind (yields_selectBy (by intro h; simp [h]) hOf.passages) ?_
    refine Yields.bind (yields_selectBy (by intro h; simp [h]) hOf.sources) ?_
    refine Yields.bind (yields_selectRows hOf.scores) ?_
    refine Yields.bind (yields_ofExcept hEntries) ?_
    exact Yields.bind (yields_query .now _) (yields_done _)

end Queries

/-! ## Cited statements -/

/-- A conclusion of the run cites the statement. -/
def CitedBy (runId : Uuid) (t : Tables) (statement : Statement) : Prop :=
  statement ∈ t.statements ∧ ∃ c ∈ t.conclusions, c.runId = runId ∧
    ∃ link ∈ t.conclusionEvidence, link.conclusionId = c.id ∧ link.statementId = statement.id

/-- No source of a cited statement has a malformed URL. -/
def Renderable (p : Platform) (runId : Uuid) (t : Tables) : Prop :=
  ∀ statement, CitedBy runId t statement →
    ∀ source, sourceOf t.passages t.sources statement = some source →
      ∃ domain, Routes.domain p source.uri = .ok domain

section Collected

variable {ε α β : Type} {f : α → Except ε β} {items : List α} {values : List β}

/-- A loop which raises nowhere collects what its turns return. -/
theorem mem_mapM_ok (h : items.mapM f = .ok values) (value : β) :
    value ∈ values ↔ ∃ item ∈ items, f item = .ok value := by
  induction items generalizing values with
  | nil =>
      cases h
      simp
  | cons item rest ih =>
      rw [List.mapM_cons] at h
      cases hItem : f item with
      | error error =>
          rw [hItem] at h
          cases h
      | ok first =>
          cases hRest : rest.mapM f with
          | error error =>
              rw [hItem, hRest] at h
              cases h
          | ok others =>
              rw [hItem, hRest] at h
              cases h
              simp only [List.mem_cons, ih hRest, or_and_right, exists_or, exists_eq_left, hItem,
                Except.ok.injEq, eq_comm (a := first)]

/-- In a loop which raises nowhere no turn raises. -/
theorem of_mapM_ok (h : items.mapM f = .ok values) :
    ∀ item ∈ items, ∃ value, f item = .ok value := by
  induction items generalizing values with
  | nil => simp
  | cons first rest ih =>
      rw [List.mapM_cons] at h
      cases hFirst : f first with
      | error error =>
          rw [hFirst] at h
          cases h
      | ok value =>
          cases hRest : rest.mapM f with
          | error error =>
              rw [hFirst, hRest] at h
              cases h
          | ok others => exact List.forall_mem_cons.mpr ⟨⟨value, hFirst⟩, ih hRest⟩

theorem mapM_total (h : ∀ item ∈ items, ∃ value, f item = .ok value) :
    ∃ values, items.mapM f = .ok values := by
  induction items with
  | nil => exact ⟨[], rfl⟩
  | cons item rest ih =>
      obtain ⟨value, hValue⟩ := h item List.mem_cons_self
      obtain ⟨values, hValues⟩ := ih fun other hOther => h other (List.mem_cons_of_mem _ hOther)
      refine ⟨value :: values, ?_⟩
      rw [List.mapM_cons, hValue, hValues]
      rfl

end Collected

section Entries

variable {p : Platform} {runId : Uuid} {t : Tables} {found : FoundRows} {statement : Statement}
  {entries : List ReportConclusion}

/-- What a cited statement adds to the report. -/
theorem evidenceOf_some {statements : List Statement} {passages : List Passage}
    {sources : List Source} {scores : List EvidenceLink} {link : ConclusionEvidence}
    {both : ReportSupportEntry × ReportEvidenceStatement}
    (h : evidenceOf p statements passages sources scores link = .ok (some both)) :
    ∃ statement, findRow Statement.id link.statementId statements = some statement ∧
      both.1 = supportEntry statement (scoreOf scores statement) := by
  unfold evidenceOf at h
  cases hFound : findRow Statement.id link.statementId statements with
  | none =>
      rw [hFound] at h
      cases h
  | some statement =>
      rw [hFound] at h
      dsimp only at h
      refine ⟨statement, rfl, ?_⟩
      cases hDomain : Routes.domainFor p passages sources statement with
      | error error =>
          rw [hDomain] at h
          cases h
      | ok domain =>
          rw [hDomain] at h
          have hBoth := Option.some.inj (Except.ok.inj h)
          rw [← hBoth]

theorem evidenceOf_ok {statements : List Statement} {passages : List Passage}
    {sources : List Source} (scores : List EvidenceLink) {link : ConclusionEvidence}
    (h : ∀ statement, findRow Statement.id link.statementId statements = some statement →
      ∃ domain, Routes.domainFor p passages sources statement = .ok domain) :
    ∃ both, evidenceOf p statements passages sources scores link = .ok both ∧
      ∀ statement, findRow Statement.id link.statementId statements = some statement →
        both.map Prod.fst = some (supportEntry statement (scoreOf scores statement)) := by
  unfold evidenceOf
  cases hFound : findRow Statement.id link.statementId statements with
  | none => exact ⟨none, rfl, by simp⟩
  | some statement =>
      obtain ⟨domain, hDomain⟩ := h statement hFound
      dsimp only
      rw [hDomain]
      refine ⟨_, rfl, ?_⟩
      intro other hOther
      obtain rfl := Option.some.inj hOther
      rfl

theorem evidenceOf_domain {statements : List Statement} {passages : List Passage}
    {sources : List Source} {scores : List EvidenceLink} {link : ConclusionEvidence}
    {both : Option (ReportSupportEntry × ReportEvidenceStatement)}
    (h : evidenceOf p statements passages sources scores link = .ok both)
    (hFound : findRow Statement.id link.statementId statements = some statement) :
    ∃ domain, Routes.domainFor p passages sources statement = .ok domain := by
  unfold evidenceOf at h
  rw [hFound] at h
  dsimp only at h
  cases hDomain : Routes.domainFor p passages sources statement with
  | error error =>
      rw [hDomain] at h
      cases h
  | ok domain => exact ⟨domain, rfl⟩

theorem conclusionFromRows_ok {row : Conclusion} {c : ReportConclusion}
    (h : conclusionFromRows p found.links found.statements found.passages found.sources
      found.scores row = .ok c) :
    c.id = row.id.str ∧ c.oneSided = false ∧ c.contradictionWarnings = [] ∧
      ∃ both, (found.links.filter fun link => link.conclusionId = row.id).mapM
          (evidenceOf p found.statements found.passages found.sources found.scores) = .ok both ∧
        c.supportMatrix = (both.filterMap id).map Prod.fst := by
  unfold conclusionFromRows at h
  cases hBoth : (found.links.filter fun link => link.conclusionId = row.id).mapM
      (evidenceOf p found.statements found.passages found.sources found.scores) with
  | error error =>
      rw [hBoth] at h
      cases h
  | ok both =>
      rw [hBoth] at h
      have hEntry := Except.ok.inj h
      rw [← hEntry]
      exact ⟨rfl, rfl, rfl, both, rfl, rfl⟩

/-- A statement which is found for a link of a conclusion is cited. -/
theorem FoundRows.Of.citedBy (hOf : found.Of runId t) {row : Conclusion} {link : ConclusionEvidence}
    (hRow : row ∈ found.conclusions)
    (hLink : link ∈ found.links.filter fun link => link.conclusionId = row.id)
    (hStatement : findRow Statement.id link.statementId found.statements = some statement) :
    CitedBy runId t statement := by
  obtain ⟨hFound, hId⟩ := findRow_some hStatement
  obtain ⟨hLinkFound, hConclusion⟩ := List.mem_filter.mp hLink
  have hInTable := (List.mem_filter.mp (hOf.statements.mem_iff.mp hFound)).1
  obtain ⟨hRowTable, hRun⟩ := List.mem_filter.mp (hOf.conclusions.mem_iff.mp hRow)
  have hLinkTable := (List.mem_filter.mp (hOf.links.mem_iff.mp hLinkFound)).1
  exact ⟨hInTable, row, hRowTable, by simpa using hRun, link, hLinkTable, by simpa using hConclusion,
    hId.symm⟩

/-- Every entry of the report is that of a cited statement. -/
theorem FoundRows.Of.shown (hOf : found.Of runId t) (hEntries : found.entries p = .ok entries)
    {c : ReportConclusion} (hc : c ∈ entries) {e : ReportSupportEntry} (he : e ∈ c.supportMatrix) :
    ∃ statement, CitedBy runId t statement ∧
      e = supportEntry statement (scoreOf found.scores statement) := by
  obtain ⟨row, hRow, hMade⟩ := (mem_mapM_ok hEntries c).mp hc
  obtain ⟨-, -, -, both, hBoth, hMatrix⟩ := conclusionFromRows_ok hMade
  rw [hMatrix] at he
  obtain ⟨pair, hPair, rfl⟩ := List.mem_map.mp he
  have hSome : some pair ∈ both := by simpa using hPair
  obtain ⟨link, hLink, hEvidence⟩ := (mem_mapM_ok hBoth (some pair)).mp hSome
  obtain ⟨statement, hStatement, hEntry⟩ := evidenceOf_some hEvidence
  exact ⟨statement, hOf.citedBy hRow hLink hStatement, hEntry⟩

end Entries

section Cited

variable {p : Platform} {runId : Uuid} {w : World} {found : FoundRows} {statement : Statement}

/-- A cited statement is found, with its conclusion and its link. -/
theorem FoundRows.Of.cited (hOf : found.Of runId w.tables) (h : CitedBy runId w.tables statement) :
    findRow Statement.id statement.id found.statements = some statement ∧
      ∃ row ∈ found.conclusions,
        ∃ link ∈ found.links.filter fun link => link.conclusionId = row.id,
          link.statementId = statement.id := by
  obtain ⟨hStatement, row, hRow, hRun, link, hLink, hConclusion, hId⟩ := h
  have hRowFound : row ∈ found.conclusions :=
    hOf.conclusions.mem_iff.mpr (List.mem_filter.mpr ⟨hRow, by simpa using hRun⟩)
  have hLinkFound : link ∈ found.links := by
    refine hOf.links.mem_iff.mpr (List.mem_filter.mpr ⟨hLink, ?_⟩)
    simp only [List.any_eq_true, decide_eq_true_eq]
    exact ⟨row, hRowFound, hConclusion.symm⟩
  constructor
  · have hSame := w.db.valid.statementsKey.findRow_selected (k := statement.id) hOf.statements
      fun other _ hOther => by
        simp only [List.any_eq_true, decide_eq_true_eq]
        exact ⟨link, hLinkFound, hId.trans hOther.symm⟩
    rw [hSame]
    exact w.db.valid.statementsKey.findRow_eq hStatement
  · exact ⟨row, hRowFound, link, List.mem_filter.mpr ⟨hLinkFound, by simpa using hConclusion⟩, hId⟩

/-- The source of a statement which has been found is the one of the tables. -/
theorem FoundRows.Of.sourceOf (hOf : found.Of runId w.tables) (h : statement ∈ found.statements) :
    sourceOf found.passages found.sources statement =
      Ecrke.sourceOf w.tables.passages w.tables.sources statement := by
  have hPassage : findRow Passage.id statement.passageId found.passages =
      findRow Passage.id statement.passageId w.tables.passages := by
    refine w.db.valid.passagesKey.findRow_selected hOf.passages fun row _ hId => ?_
    simp only [List.any_eq_true, decide_eq_true_eq]
    exact ⟨statement, h, hId.symm⟩
  unfold Ecrke.sourceOf
  rw [← hPassage]
  cases hFound : findRow Passage.id statement.passageId found.passages with
  | none => rfl
  | some passage =>
      have hSource : findRow Source.id passage.sourceId found.sources =
          findRow Source.id passage.sourceId w.tables.sources := by
        refine w.db.valid.sourcesKey.findRow_selected hOf.sources fun row _ hId => ?_
        simp only [List.any_eq_true, decide_eq_true_eq]
        exact ⟨passage, (findRow_some hFound).1, hId.symm⟩
      simp only [Option.bind_some, hSource]

theorem FoundRows.Of.domain (hOf : found.Of runId w.tables) (hRenderable : Renderable p runId w.tables)
    (hFound : statement ∈ found.statements) (hCited : CitedBy runId w.tables statement) :
    ∃ domain, Routes.domainFor p found.passages found.sources statement = .ok domain := by
  unfold Routes.domainFor
  rw [hOf.sourceOf hFound]
  cases hSource : Ecrke.sourceOf w.tables.passages w.tables.sources statement with
  | none => exact ⟨[], rfl⟩
  | some source => exact hRenderable statement hCited source hSource

/-- The report is made, and has an entry for every cited statement. -/
theorem FoundRows.Of.renders (hOf : found.Of runId w.tables)
    (hRenderable : Renderable p runId w.tables) :
    ∃ entries, found.entries p = .ok entries ∧ ∀ statement, CitedBy runId w.tables statement →
      ∃ c ∈ entries, supportEntry statement (scoreOf found.scores statement) ∈ c.supportMatrix := by
  have hEvidence (row : Conclusion) (hRow : row ∈ found.conclusions) (link : ConclusionEvidence)
      (hLink : link ∈ found.links.filter fun link => link.conclusionId = row.id) :=
    evidenceOf_ok found.scores fun statement hStatement =>
        hOf.domain hRenderable (findRow_some hStatement).1 (hOf.citedBy hRow hLink hStatement)
  have hRows (row : Conclusion) (hRow : row ∈ found.conclusions) :
      ∃ c, conclusionFromRows p found.links found.statements found.passages found.sources
        found.scores row = .ok c := by
    obtain ⟨both, hBoth⟩ := mapM_total fun link hLink =>
      (hEvidence row hRow link hLink).imp fun _ h => h.1
    unfold conclusionFromRows
    rw [hBoth]
    exact ⟨_, rfl⟩
  obtain ⟨entries, hEntries⟩ := mapM_total hRows
  refine ⟨entries, hEntries, fun statement hCited => ?_⟩
  obtain ⟨hStatement, row, hRow, link, hLink, hId⟩ := hOf.cited hCited
  obtain ⟨c, hMade⟩ := hRows row hRow
  obtain ⟨-, -, -, both, hBoth, hMatrix⟩ := conclusionFromRows_ok hMade
  obtain ⟨found', hFound', hEntry⟩ := hEvidence row hRow link hLink
  refine ⟨c, (mem_mapM_ok hEntries c).mpr ⟨row, hRow, hMade⟩, ?_⟩
  have hMem := (mem_mapM_ok hBoth found').mpr ⟨link, hLink, hFound'⟩
  obtain ⟨pair, rfl, hPair⟩ := Option.map_eq_some_iff.mp (hEntry statement (by rw [hId, hStatement]))
  rw [hMatrix, ← hPair]
  exact List.mem_map_of_mem (by simpa using hMem)

/-- No source of a report which has been made has a malformed URL. -/
theorem FoundRows.Of.renderable (hOf : found.Of runId w.tables)
    {entries : List ReportConclusion} (hEntries : found.entries p = .ok entries) :
    Renderable p runId w.tables := by
  intro statement hCited source hSource
  obtain ⟨hStatement, row, hRow, link, hLink, hId⟩ := hOf.cited hCited
  obtain ⟨c, hMade⟩ := of_mapM_ok hEntries row hRow
  obtain ⟨-, -, -, both, hBoth, -⟩ := conclusionFromRows_ok hMade
  obtain ⟨pair, hPair⟩ := of_mapM_ok hBoth link hLink
  obtain ⟨domain, hDomain⟩ := evidenceOf_domain hPair (by rw [hId, hStatement])
  unfold Routes.domainFor at hDomain
  rw [hOf.sourceOf (findRow_some hStatement).1, hSource] at hDomain
  exact ⟨domain, hDomain⟩

end Cited

/-! ## Scores -/

/-- The score of a latest verify link of a statement. -/
def LatestScore (t : Tables) (id : Uuid) (score : EvidenceScore) : Prop :=
  ∃ link ∈ verifyLinks id t, link.score = score ∧
    ∀ other ∈ verifyLinks id t, other.createdAt ≤ link.createdAt

/-- The links of the run for a statement and its passage, whatever their method. -/
def scoreLinks (runId : Uuid) (t : Tables) (statement : Statement) : List EvidenceLink :=
  (t.evidenceLinks.filter fun l => l.runId = runId).filter fun l =>
    l.statementId = statement.id && l.passageId = statement.passageId

/-- Every entry of the report shows the score of a latest verify link of its statement. -/
def ScoresAgree (t : Tables) (report : Report) : Prop :=
  ∀ c ∈ report.conclusions, ∀ e ∈ c.supportMatrix, ∃ statement ∈ t.statements,
    e.statementId = statement.id.str ∧
      ∃ score, LatestScore t statement.id score ∧ e.supportScore = score.value

/-- All links of a statement for its passage have the score of a latest verify link, or there are
none and that score is `none`. -/
def ScoresUniform (runId : Uuid) (t : Tables) (statement : Statement) : Prop :=
  (∀ link ∈ scoreLinks runId t statement, LatestScore t statement.id link.score) ∧
    (scoreLinks runId t statement = [] → LatestScore t statement.id .none)

section Scores

variable {runId : Uuid} {t : Tables} {statement : Statement} {scores : List EvidenceLink}

theorem EvidenceScore.value_injective {a b : EvidenceScore} (h : a.value = b.value) : a = b := by
  cases a <;> cases b <;> first | rfl | exact absurd h (by decide)

/-- The score which is shown is that of one of the links, if there is one. -/
theorem scoreOf_perm (h : scores.Perm (t.evidenceLinks.filter fun l => l.runId = runId)) :
    (scoreLinks runId t statement = [] ∧ scoreOf scores statement = none) ∨
      ∃ link ∈ scoreLinks runId t statement, scoreOf scores statement = some link.score := by
  have hPerm := h.filter fun l => l.statementId = statement.id && l.passageId = statement.passageId
  unfold scoreOf
  cases hLast : (scores.filter fun l =>
      l.statementId = statement.id && l.passageId = statement.passageId).getLast? with
  | none =>
      rw [List.getLast?_eq_none_iff] at hLast
      rw [hLast] at hPerm
      exact .inl ⟨hPerm.symm.eq_nil, rfl⟩
  | some link =>
      exact .inr ⟨link, hPerm.mem_iff.mp (List.mem_of_getLast? hLast), rfl⟩

/-- A row may be moved to the end. -/
theorem exists_moved {ρ : Type} {rows : List ρ} {row : ρ} (h : row ∈ rows) :
    ∃ rest, (rest ++ [row]).Perm rows := by
  obtain ⟨before, after, rfl⟩ := List.append_of_mem h
  exact ⟨before ++ after, (List.perm_append_singleton row _).trans List.perm_middle.symm⟩

theorem filter_concat {ρ : Type} {q : ρ → Bool} {rest : List ρ} {row : ρ} (h : q row = true) :
    (rest ++ [row]).filter q = rest.filter q ++ [row] := by
  rw [List.filter_append, List.filter_cons_of_pos h, List.filter_nil]

/-- Any of the links may be the last one. -/
theorem exists_last {link : EvidenceLink} (h : link ∈ scoreLinks runId t statement) :
    ∃ scores : List EvidenceLink,
      scores.Perm (t.evidenceLinks.filter fun l => l.runId = runId) ∧
        scoreOf scores statement = some link.score := by
  obtain ⟨hMem, hKey⟩ := List.mem_filter.mp h
  obtain ⟨rest, hPerm⟩ := exists_moved hMem
  refine ⟨rest ++ [link], hPerm, ?_⟩
  rw [scoreOf, filter_concat, List.getLast?_concat, Option.map_some]
  exact hKey

theorem laterLink_some (current : Option EvidenceLink) (link : EvidenceLink) :
    ∃ later, laterLink current link = some later := by
  cases current with
  | none => exact ⟨link, rfl⟩
  | some current =>
      unfold laterLink
      dsimp only
      split
      · exact ⟨link, rfl⟩
      · exact ⟨current, rfl⟩

/-- The link which is kept is one of the latest. -/
theorem foldl_laterLink {links : List EvidenceLink} {link : EvidenceLink}
    (h : links.foldl laterLink none = some link) :
    link ∈ links ∧ ∀ other ∈ links, other.createdAt ≤ link.createdAt := by
  induction links using List.reverseRecOn generalizing link with
  | nil => cases h
  | append_singleton rest last ih =>
      rw [List.foldl_concat] at h
      cases hKept : rest.foldl laterLink none with
      | none =>
          have hNil : rest = [] := by
            cases rest using List.reverseRecOn with
            | nil => rfl
            | append_singleton first x =>
                rw [List.foldl_concat] at hKept
                obtain ⟨later, hLater⟩ := laterLink_some (first.foldl laterLink none) x
                rw [hLater] at hKept
                cases hKept
          rw [hKept] at h
          obtain rfl : last = link := Option.some.inj h
          simp [hNil]
      | some kept =>
          obtain ⟨hMem, hLatest⟩ := ih hKept
          rw [hKept, laterLink] at h
          split at h
          · rename_i hLater
            obtain rfl := Option.some.inj h
            refine ⟨by simp, fun other hOther => ?_⟩
            rcases List.mem_append.mp hOther with hRest | hLast
            · exact le_trans (hLatest other hRest) hLater
            · rw [List.mem_singleton.mp hLast]
          · rename_i hEarlier
            obtain rfl := Option.some.inj h
            refine ⟨List.mem_append_left _ hMem, fun other hOther => ?_⟩
            rcases List.mem_append.mp hOther with hRest | hLast
            · exact hLatest other hRest
            · rw [List.mem_singleton.mp hLast]
              exact le_of_lt (not_le.mp hEarlier)

/-- The value which the report generator has computed is the score of a latest verify link, and any
of them may be it. -/
theorem latestScore_iff {statements : List Statement} (hStatement : statement ∈ statements)
    (score : EvidenceScore) : LatestScore t statement.id score ↔ ∃ links : List EvidenceLink,
      links.Perm (t.evidenceLinks.filter fun l => statements.any fun s => s.id = l.statementId) ∧
        latestVerifyScore links statement.id = some score := by
  have hOwn {links : List EvidenceLink} (hLinks : links.Perm
      (t.evidenceLinks.filter fun l => statements.any fun s => s.id = l.statementId))
      (link : EvidenceLink) : link ∈ links.filter (fun l =>
        l.statementId = statement.id && l.method = some "verify".toList) ↔
      link ∈ verifyLinks statement.id t := by
    simp only [verifyLinks, List.mem_filter, hLinks.mem_iff, List.any_eq_true, decide_eq_true_eq,
      Bool.and_eq_true]
    constructor
    · rintro ⟨⟨hMem, -⟩, hKey⟩
      exact ⟨hMem, hKey⟩
    · rintro ⟨hMem, hKey⟩
      exact ⟨⟨hMem, statement, hStatement, hKey.1.symm⟩, hKey⟩
  constructor
  · rintro ⟨link, hLink, rfl, hLatest⟩
    have hSelected := (hOwn (.refl _) link).mpr hLink
    obtain ⟨hMem, hKey⟩ := List.mem_filter.mp hSelected
    obtain ⟨rest, hPerm⟩ := exists_moved hMem
    refine ⟨rest ++ [link], hPerm, ?_⟩
    have hConcat : (rest ++ [link]).filter (fun l =>
        l.statementId = statement.id && l.method = some "verify".toList) =
      rest.filter (fun l => l.statementId = statement.id && l.method = some "verify".toList) ++
        [link] := filter_concat hKey
    rw [latestVerifyScore, hConcat, List.foldl_concat]
    cases hKept : (rest.filter fun l =>
        l.statementId = statement.id && l.method = some "verify".toList).foldl laterLink none with
    | none => rfl
    | some kept =>
        have hKeptMem := List.mem_filter.mp (foldl_laterLink hKept).1
        have hVerify := (hOwn hPerm kept).mp
          (List.mem_filter.mpr ⟨List.mem_append_left _ hKeptMem.1, hKeptMem.2⟩)
        rw [laterLink, if_pos (hLatest kept hVerify), Option.map_some]
  · rintro ⟨links, hLinks, hScore⟩
    obtain ⟨link, hLink, rfl⟩ := Option.map_eq_some_iff.mp hScore
    obtain ⟨hMem, hLatest⟩ := foldl_laterLink hLink
    exact ⟨link, (hOwn hLinks link).mp hMem, rfl,
      fun other hOther => hLatest other ((hOwn hLinks other).mpr hOther)⟩

end Scores

/-- Whatever the order in which the database returns rows, the report which is made from rows shows
the scores of the latest verify links.  That is so exactly if it cannot be made, or the links of every
cited statement for its passage have no other score. -/
theorem scores_agree_iff (p : Platform) (run : Run) (s : World) :
    (∀ log report t, Exec (reportFromRows p run) s log (.done report) t →
      ScoresAgree s.tables report) ↔
    (Renderable p run.id s.tables → ∀ statement, CitedBy run.id s.tables statement →
      ScoresUniform run.id s.tables statement) := by
  constructor
  · intro hAgree hRenderable statement hCited
    -- Whatever order the links have, the entry of the statement shows the score of the last one.
    have hShown (scores : List EvidenceLink)
        (hScores : scores.Perm (s.tables.evidenceLinks.filter fun l => l.runId = run.id)) :
        LatestScore s.tables statement.id ((scoreOf scores statement).getD .none) := by
      obtain ⟨found, hOf, rfl⟩ := FoundRows.exists_of run.id s.tables hScores
      obtain ⟨entries, hEntries, hEach⟩ := hOf.renders hRenderable
      obtain ⟨report, ⟨log, hExec⟩, rfl⟩ := yields_reportFromRows hOf hEntries
      obtain ⟨c, hc, he⟩ := hEach statement hCited
      obtain ⟨other, hOther, hId, score, hLatest, hScore⟩ := hAgree log report s hExec c hc _ he
      have hSame : statement.id = other.id := Uuid.str_injective hId
      rw [EvidenceScore.value_injective hScore, hSame]
      exact hLatest
    constructor
    · intro link hLink
      obtain ⟨scores, hScores, hLast⟩ := exists_last hLink
      have hLatest := hShown scores hScores
      rwa [hLast] at hLatest
    · intro hNone
      have hLatest := hShown _ (.refl _)
      rcases scoreOf_perm (.refl (s.tables.evidenceLinks.filter fun l => l.runId = run.id)) with
        ⟨-, hScore⟩ | ⟨link, hLink, -⟩
      · rwa [hScore] at hLatest
      · rw [hNone] at hLink
        cases hLink
  · rintro hUniform log report t hExec c hc e he
    obtain ⟨rfl, found, hOf, hEntries⟩ := reportFromRows_done hExec
    obtain ⟨statement, hCited, rfl⟩ := hOf.shown hEntries hc he
    have hScores := hUniform (hOf.renderable hEntries) statement hCited
    refine ⟨statement, hCited.1, rfl, _, ?_, rfl⟩
    rcases scoreOf_perm hOf.scores with ⟨hNone, hScore⟩ | ⟨link, hLink, hScore⟩
    · rw [hScore]
      exact hScores.2 hNone
    · rw [hScore]
      exact hScores.1 link hLink

/-- The run with one conclusion has a cited statement with a link whose score no verify link has,
and the checkpoint shows the conclusion as one-sided. -/
theorem concludeCuts_shown :
    ((Served.concluding.runs concludeCuts).2.tables.runs.any fun run => run.id = ⟨1⟩) = true ∧
    ((Served.concluding.runs concludeCuts).2.tables.statements.any fun statement =>
      ((Served.concluding.runs concludeCuts).2.tables.conclusions.any fun c => c.runId = ⟨1⟩ &&
        (Served.concluding.runs concludeCuts).2.tables.conclusionEvidence.any fun link =>
          link.conclusionId = c.id && link.statementId = statement.id) &&
      ((scoreLinks ⟨1⟩ (Served.concluding.runs concludeCuts).2.tables statement).any fun link =>
        link.score = .none) &&
      (verifyLinks statement.id (Served.concluding.runs concludeCuts).2.tables).all fun link =>
        link.score ≠ .none) = true ∧
    ((concludeState ⟨1⟩ (Served.concluding.runs concludeCuts).2).any fun state =>
      (listedConclusions state).any fun item =>
        (item.get? "one_sided".toList).any Json.truthy) = true := by
  decide +kernel

theorem Served.renderable (served : Served) (runId : Uuid) (t : Tables) :
    Renderable served.platform runId t :=
  fun _ _ _ _ => ⟨_, rfl⟩

/-- After a run of the pipeline, the database may return the rows in an order in which the report
shows another score. -/
theorem scores_disagree : ∃ log t,
    HistoryWhere (flowJob ⟨1⟩) (fun services _ => services.platform = Served.concluding.platform)
      (World.submitted 1) log t ∧
    ∃ run ∈ t.tables.runs, run.id = ⟨1⟩ ∧ ∃ later report u,
      Exec (reportFromRows Served.concluding.platform run) t later (.done report) u ∧
        ¬ ScoresAgree t.tables report := by
  obtain ⟨hRuns, hStatements, -⟩ := concludeCuts_shown
  refine ⟨_, _, Served.concluding.runs_history concludeCuts, ?_⟩
  generalize (Served.concluding.runs concludeCuts).2 = t at hRuns hStatements ⊢
  obtain ⟨run, hRun, hId⟩ := List.any_eq_true.mp hRuns
  obtain ⟨statement, hStatement, hFacts⟩ := List.any_eq_true.mp hStatements
  simp only [Bool.and_eq_true, List.any_eq_true, List.all_eq_true, decide_eq_true_eq] at hId hFacts
  obtain ⟨⟨⟨c, hc, hOwn, link, hLink, hOf, hCites⟩, other, hOther, hScore⟩, hVerify⟩ := hFacts
  refine ⟨run, hRun, hId, ?_⟩
  by_contra hNever
  have hAgree : ∀ later report u, Exec (reportFromRows Served.concluding.platform run) t later
      (.done report) u → ScoresAgree t.tables report := by
    intro later report u hExec
    by_contra hNot
    exact hNever ⟨later, report, u, hExec, hNot⟩
  have hUniform := (scores_agree_iff Served.concluding.platform run t).mp hAgree
    (Served.renderable _ _ _) statement
    ⟨hStatement, c, hc, by rw [hOwn, hId], link, hLink, hOf, hCites⟩
  rw [← hId] at hOther
  obtain ⟨latest, hLatest, hSame, -⟩ := hUniform.1 other hOther
  exact hVerify latest hLatest (hSame.trans hScore)

end Ecrke
