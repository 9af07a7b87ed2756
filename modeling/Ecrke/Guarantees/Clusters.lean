import Ecrke.Guarantees.Findings
import Ecrke.Session

/-!
# One execution of the find stage

What one complete execution of the find stage makes of the rows which it reads, whatever these are
and in whatever order it reads them: a partition of the verified statements by domain, each finding
with the tier of the best verify link of its statements.

* `Clustered` -- the statements which belong to a cluster.
* `IsBest`, `tierByBest` -- the best score, and the tier of a finding.
* `Clustering` -- what the execution adds.
* `runFind_done`, `runFind_clusters` -- a complete execution.
* `find_partitions` -- the execution on a run without findings.
-/

namespace Ecrke

open Durable

/-! ## What should be added -/

/-- A verified statement of a run whose passage belongs to a source of the run. -/
def Clustered (runId : Uuid) (t : Tables) (statement : Statement) : Prop :=
  VerifiedOf runId t statement ∧ StatementResolves statement t

/-- `_SCORE_RANK` -/
def EvidenceScore.rank : EvidenceScore → Nat
  | .none => 0
  | .partial_ => 1
  | .full => 2

/-- `_TIER_BY_BEST` -/
def tierByBest : EvidenceScore → EvidenceTier
  | .none => .t3
  | .partial_ => .t2
  | .full => .t1

/-- The score of highest rank among some scores, `none` where there are none. -/
structure IsBest (scores : EvidenceScore → Prop) (best : EvidenceScore) : Prop where
  reached : best = .none ∨ scores best
  highest : ∀ score, scores score → score.rank ≤ best.rank

/-- A score of a verify link of a statement. -/
def VerifyScore (t : Tables) (statementId : Uuid) (score : EvidenceScore) : Prop :=
  ∃ link ∈ t.evidenceLinks, link.statementId = statementId ∧
    link.method = some "verify".toList ∧ link.score = score

/-- The links to the statements of a run are links of the run. -/
def LinksOwn (runId : Uuid) (t : Tables) : Prop :=
  ∀ link ∈ t.evidenceLinks, ∀ s ∈ t.statements, s.id = link.statementId → s.runId = runId →
    link.runId = runId

/-- What an execution of the find stage adds: findings with pairwise distinct domains, a link from
each clustered statement to exactly one of them, the one of its domain, and no other links. -/
structure Clustering (p : Platform) (runId : Uuid) (t : Tables) (findings : List Finding)
    (links : List FindingStatement) : Prop where
  run : ∀ f ∈ findings, f.runId = runId
  domains : (findings.map Finding.domainTags).Nodup
  linked : ∀ s, Clustered runId t s → ∃! f, f ∈ findings ∧ ⟨f.id, s.id⟩ ∈ links
  only : ∀ row ∈ links, (∃ f ∈ findings, f.id = row.findingId) ∧
    ∃ s, Clustered runId t s ∧ s.id = row.statementId
  placed : ∀ f ∈ findings, ∀ s, Clustered runId t s → ⟨f.id, s.id⟩ ∈ links →
    ∃ domain, DomainOf p t s domain ∧ f.domainTags = [domain]

/-- The tier of each finding is that of the best score of its statements. -/
def Tiered (runId : Uuid) (t : Tables) (findings : List Finding) (links : List FindingStatement) :
    Prop :=
  ∀ f ∈ findings, ∃ best, f.evidenceTier = tierByBest best ∧
    IsBest (fun score => ∃ s, Clustered runId t s ∧ ⟨f.id, s.id⟩ ∈ links ∧
      VerifyScore t s.id score) best

/-! ## Scores -/

section Scores

variable {statementId : Uuid} {links : List EvidenceLink} {score : EvidenceScore}

/-- `_best_score` finds the best score of the verify links of a statement. -/
theorem bestScore_isBest :
    IsBest (fun score => ∃ link ∈ links, link.statementId = statementId ∧
      link.method = some "verify".toList ∧ link.score = score) (bestScore statementId links) := by
  have hScores (score : EvidenceScore) :
      score ∈ (links.filter fun l => l.statementId = statementId &&
        l.method = some "verify".toList).map EvidenceLink.score ↔
      ∃ link ∈ links, link.statementId = statementId ∧
        link.method = some "verify".toList ∧ link.score = score := by
    simp only [List.mem_map, List.mem_filter, Bool.and_eq_true, decide_eq_true_eq, and_assoc]
  unfold bestScore
  simp only [hScores]
  split
  · rename_i hFull
    exact ⟨.inr hFull, fun other _ => by cases other <;> decide⟩
  · rename_i hFull
    split
    · rename_i hPartial
      refine ⟨.inr hPartial, fun other hOther => ?_⟩
      cases other with
      | full => exact absurd hOther hFull
      | _ => decide
    · rename_i hPartial
      refine ⟨.inl rfl, fun other hOther => ?_⟩
      cases other with
      | full => exact absurd hOther hFull
      | partial_ => exact absurd hOther hPartial
      | none => exact Nat.le_refl _

/-- The tier of a group is that of the best among the best scores of its members. -/
theorem tierOf_isBest {members : List Statement} {scores : Statement → EvidenceScore → Prop}
    {bests : Statement → EvidenceScore} (h : ∀ s ∈ members, IsBest (scores s) (bests s)) :
    ∃ best, tierOf (members.map bests) = tierByBest best ∧
      IsBest (fun score => ∃ s ∈ members, scores s score) best := by
  -- A score of rank above zero which is the best one of a member is reached there.
  have hReached (score : EvidenceScore) (hScore : score ≠ .none)
      (hMem : score ∈ members.map bests) : ∃ s ∈ members, scores s score := by
    obtain ⟨s, hs, rfl⟩ := List.mem_map.mp hMem
    exact ⟨s, hs, (h s hs).reached.resolve_left hScore⟩
  have hBound (score : EvidenceScore) (hHigher : ∀ s ∈ members, (bests s).rank ≤ score.rank) :
      ∀ other, (∃ s ∈ members, scores s other) → other.rank ≤ score.rank := by
    rintro other ⟨s, hs, hOther⟩
    exact ((h s hs).highest other hOther).trans (hHigher s hs)
  by_cases hFull : .full ∈ members.map bests
  · refine ⟨.full, by simp only [tierOf, hFull, if_true]; rfl, .inr (hReached _ (by simp) hFull), ?_⟩
    exact hBound _ fun s _ => by cases bests s <;> decide
  · have hNotFull (s : Statement) (hs : s ∈ members) : bests s ≠ .full :=
      fun hEq => hFull (hEq ▸ List.mem_map_of_mem hs)
    by_cases hPartial : .partial_ ∈ members.map bests
    · refine ⟨.partial_, by simp only [tierOf, hFull, hPartial, if_true, if_false]; rfl,
        .inr (hReached _ (by simp) hPartial), ?_⟩
      refine hBound _ fun s hs => ?_
      cases hBest : bests s with
      | full => exact absurd hBest (hNotFull s hs)
      | _ => decide
    · refine ⟨.none, by simp only [tierOf, hFull, hPartial, if_false]; rfl, .inl rfl, ?_⟩
      refine hBound _ fun s hs => ?_
      cases hBest : bests s with
      | full => exact absurd hBest (hNotFull s hs)
      | partial_ => exact absurd (hBest ▸ List.mem_map_of_mem hs) hPartial
      | none => exact Nat.le_refl _

end Scores

/-! ## A complete execution -/

section Execution

variable {ctx : PipelineContext} {s t : World} {log : Log Vocabulary}

/-- The finding of a group. -/
def findingOf (ctx : PipelineContext) (links : List EvidenceLink) (group : Text × List Statement)
    (id : Uuid) : Finding :=
  { id, runId := ctx.runId, title := "Evidence cluster: ".toList ++ group.1,
    evidenceTier := tierOf (group.2.map fun s => bestScore s.id links),
    domainTags := [group.1],
    summary := Text.ofNat group.2.length ++ " verified statement(s) from ".toList ++ group.1 }

/-- Entries with the findings of their groups. -/
def EntriesOf (ctx : PipelineContext) (links : List EvidenceLink) (entries : List Entry) : Prop :=
  ∀ entry ∈ entries, ∃ id, entry.finding = findingOf ctx links entry.group id

theorem recordFinding_done {links : List EvidenceLink} {group : Text × List Statement}
    (h : Exec (recordFinding ctx links group) s log (.done ()) t) :
    ∃ id, t.tables = { s.tables with
      findings := s.tables.findings ++ [findingOf ctx links group id]
      findingStatements := s.tables.findingStatements ++
        group.2.map fun member => ⟨id, member.id⟩ } := by
  obtain ⟨id, now, later, u, -, hId, hCommit⟩ := Exec.of_bind_done h
  obtain rfl := Exec.same hId (same_query _)
  refine ⟨id, ?_⟩
  have hRows : (group.2.map fun member => Write.insertFindingStatement ⟨id, member.id⟩) =
      (group.2.map fun member => (⟨id, member.id⟩ : FindingStatement)).map
        .insertFindingStatement := by
    simp
  rw [commitWrites_done hCommit, Tables.after_cons, hRows, Tables.after_insertFindingStatements]
  rfl

theorem recordFindings_done {links : List EvidenceLink} {groups : List (Text × List Statement)}
    (h : Exec (groups.forM (recordFinding ctx links)) s log (.done ()) t) :
    ∃ entries : List Entry, entries.map Entry.group = groups ∧ EntriesOf ctx links entries ∧
      t.tables = { s.tables with
        findings := s.tables.findings ++ entries.map Entry.finding
        findingStatements := s.tables.findingStatements ++ entries.flatMap Entry.links } := by
  induction groups generalizing s log with
  | nil =>
      obtain ⟨-, -, rfl⟩ := Exec.of_done h
      exact ⟨[], rfl, by simp [EntriesOf], by simp⟩
  | cons group rest ih =>
      obtain ⟨_, now, later, u, -, hFirst, hRest⟩ := Exec.of_bind_done h
      obtain ⟨id, hFirst⟩ := recordFinding_done hFirst
      obtain ⟨entries, rfl, hRecorded, hTables⟩ := ih hRest
      refine ⟨⟨group, findingOf ctx links group id⟩ :: entries, rfl, ?_, ?_⟩
      · exact List.forall_mem_cons.mpr ⟨⟨id, rfl⟩, hRecorded⟩
      · rw [hTables, hFirst]
        simp [Entry.links, findingOf]

/-- What a complete execution has read and written. -/
theorem runFind_done {result : StageResult} (h : Exec (runFind ctx) s log (.done result) t) :
    ∃ (sources : List Source) (passages : List Passage) (rows : List Statement)
      (groups : List (Text × List Statement)) (entries : List Entry),
      (sources = s.tables.sources.filter fun row => row.runId = ctx.runId) ∧
      (passages = s.tables.passages.filter fun row =>
        sources.any fun source => source.id = row.sourceId) ∧
      rows.Perm (s.tables.statements.filter fun row => row.runId = ctx.runId) ∧
      groupByDomain ctx.services.platform sources passages
        (rows.filter fun row => row.status = .verified) = .ok groups ∧
      entries.map Entry.group = groups ∧
      EntriesOf ctx (s.tables.evidenceLinks.filter fun l => l.runId = ctx.runId) entries ∧
      t.tables = { s.tables with
        findings := s.tables.findings ++ entries.map Entry.finding
        findingStatements := s.tables.findingStatements ++ entries.flatMap Entry.links } := by
  obtain ⟨sources, now, later, u, -, hSources, hRest⟩ := Exec.of_bind_done h
  obtain ⟨hRead, rfl⟩ := Exec.of_select_done hSources
  have hBranch : Exec (if sources.isEmpty = true then findAmong ctx sources [] else
      (selectTables fun t => t.passages.filter fun p => sources.any fun s => s.id = p.sourceId).bind
        (findAmong ctx sources)) u later (.done result) t := hRest
  -- Without a source of the run no passage is read, and none belongs to one.
  have hPassages : ∃ passages rest, (passages = u.tables.passages.filter fun row =>
      sources.any fun source => source.id = row.sourceId) ∧
      Exec (findAmong ctx sources passages) u rest (.done result) t := by
    split at hBranch
    · rename_i hEmpty
      refine ⟨[], _, ?_, hBranch⟩
      rw [List.isEmpty_iff.mp hEmpty]
      simp
    · obtain ⟨passages, _, _, v, -, hPassages, hAmong⟩ := Exec.of_bind_done hBranch
      obtain ⟨rfl, rfl⟩ := Exec.of_select_done hPassages
      exact ⟨_, _, rfl, hAmong⟩
  obtain ⟨passages, rest, hPassages, hAmong⟩ := hPassages
  obtain ⟨rows, _, _, v, -, hRows, hLinking⟩ := Exec.of_bind_done hAmong
  obtain ⟨rfl, hPerm⟩ := selectRows_done hRows
  obtain ⟨links, _, _, w, -, hLinks, hGrouping⟩ := Exec.of_bind_done hLinking
  obtain ⟨hLinked, rfl⟩ := Exec.of_select_done hLinks
  obtain ⟨groups, _, _, x, -, hGroups, hRecording⟩ := Exec.of_bind_done hGrouping
  obtain ⟨rfl, hGrouped⟩ := ofExcept_done hGroups
  obtain ⟨_, _, _, y, -, hRecord, hEnd⟩ := Exec.of_bind_done hRecording
  obtain ⟨-, -, rfl⟩ := Exec.of_done hEnd
  obtain ⟨entries, hEntries, hOf, hTables⟩ := recordFindings_done hRecord
  subst hLinked
  exact ⟨sources, passages, rows, groups, entries, hRead, hPassages, hPerm, hGrouped, hEntries, hOf,
    hTables⟩

end Execution

/-! ## The partition -/

theorem IsBest.congr {scores scores' : EvidenceScore → Prop} {best : EvidenceScore}
    (h : IsBest scores best) (hSame : ∀ score, scores score ↔ scores' score) :
    IsBest scores' best :=
  ⟨h.reached.imp_right (hSame best).mp, fun score hScore => h.highest score ((hSame score).mpr hScore)⟩

section Partition

variable {ctx : PipelineContext} {t t' : Tables} {sources : List Source} {passages : List Passage}
  {rows : List Statement} {groups : List (Text × List Statement)}

/-- The members of the groups are the clustered statements, each in the group of its domain. -/
theorem inGroup_iff (hValid : t.Valid)
    (hSources : sources = t.sources.filter fun row => row.runId = ctx.runId)
    (hPassages : passages = t.passages.filter fun row =>
      sources.any fun source => source.id = row.sourceId)
    (hRows : rows.Perm (t.statements.filter fun row => row.runId = ctx.runId))
    (hGroups : groupByDomain ctx.services.platform sources passages
      (rows.filter fun row => row.status = .verified) = .ok groups)
    {domain : Text} {s : Statement} :
    InGroup groups domain s ↔
      Clustered ctx.runId t s ∧ DomainOf ctx.services.platform t s domain := by
  have hVerified : s ∈ rows.filter (fun row => row.status = .verified) ↔
      VerifiedOf ctx.runId t s := by
    simp [VerifiedOf, hRows.mem_iff, and_assoc]
  rw [(groupByDomain_spec hGroups).members, hVerified]
  constructor
  · rintro ⟨hOf, hPlaced⟩
    have hResolves : StatementResolves s t := by
      obtain ⟨passage, hFound, -⟩ := hPlaced
      obtain ⟨hMem, hId⟩ := findRow_some hFound
      rw [hPassages, List.mem_filter] at hMem
      obtain ⟨source, hSource, hSourceId⟩ := List.any_eq_true.mp hMem.2
      rw [hSources, List.mem_filter] at hSource
      refine ⟨passage, hId, hMem.1, source, hSource.1, of_decide_eq_true hSourceId, ?_⟩
      exact (of_decide_eq_true hSource.2).trans hOf.2.1.symm
    exact ⟨⟨hOf, hResolves⟩,
      (placed_iff hValid hSources hPassages hOf.2.1 hResolves domain).mp hPlaced⟩
  · rintro ⟨⟨hOf, hResolves⟩, hDomain⟩
    exact ⟨hOf, (placed_iff hValid hSources hPassages hOf.2.1 hResolves domain).mpr hDomain⟩

theorem DomainOf.unique {p : Platform} (hValid : t.Valid) {s : Statement} {domain other : Text}
    (h : DomainOf p t s domain) (hOther : DomainOf p t s other) : domain = other := by
  obtain ⟨passage, hPassage, hId, source, hSource, hSourceId, hDomain⟩ := h
  obtain ⟨passage', hPassage', hId', source', hSource', hSourceId', hDomain'⟩ := hOther
  obtain rfl := hValid.passagesKey.eq hPassage hPassage' (hId.trans hId'.symm)
  obtain rfl := hValid.sourcesKey.eq hSource hSource' (hSourceId.trans hSourceId'.symm)
  rw [hDomain] at hDomain'
  cases hDomain'
  rfl

/-- The entries of the groups, whose findings have keys of their own, cluster the statements. -/
theorem clustering_of_entries (hValid : t.Valid)
    {entries : List Entry} (hDistinct : (groups.map Prod.fst).Nodup)
    (hMembers : ∀ domain s, InGroup groups domain s ↔
      Clustered ctx.runId t s ∧ DomainOf ctx.services.platform t s domain)
    (hDomain : ∀ s, Clustered ctx.runId t s →
      ∃ domain, DomainOf ctx.services.platform t s domain)
    (hEntries : entries.map Entry.group = groups)
    (hOf : EntriesOf ctx (t.evidenceLinks.filter fun l => l.runId = ctx.runId) entries)
    (hKey : Keyed Finding.id (entries.map Entry.finding)) :
    Clustering ctx.services.platform ctx.runId t (entries.map Entry.finding)
        (entries.flatMap Entry.links) ∧
      (LinksOwn ctx.runId t →
        Tiered ctx.runId t (entries.map Entry.finding) (entries.flatMap Entry.links)) := by
  have hFields (e : Entry) (he : e ∈ entries) :
      e.finding.runId = ctx.runId ∧ e.finding.domainTags = [e.group.1] := by
    obtain ⟨id, hFinding⟩ := hOf e he
    rw [hFinding]
    exact ⟨rfl, rfl⟩
  have hGroup : Keyed (fun e : Entry => e.group.1) entries := by
    rw [← hEntries, List.map_map] at hDistinct
    exact hDistinct
  -- A link to a finding comes from the entry of the finding.
  have hLinked (e : Entry) (he : e ∈ entries) (s : Statement) (hs : s ∈ t.statements) :
      ⟨e.finding.id, s.id⟩ ∈ entries.flatMap Entry.links ↔ s ∈ e.group.2 := by
    constructor
    · intro hRow
      obtain ⟨other, hOther, hLink⟩ := List.mem_flatMap.mp hRow
      obtain ⟨member, hMember, hEq⟩ := List.mem_map.mp hLink
      simp only [FindingStatement.mk.injEq] at hEq
      have hSame : other.finding = e.finding :=
        hKey.eq (List.mem_map_of_mem hOther) (List.mem_map_of_mem he) hEq.1
      have hTags : other.group.1 = e.group.1 := by
        have hBoth := (hFields other hOther).2.symm.trans (hSame ▸ (hFields e he).2)
        simpa using hBoth
      obtain rfl := hGroup.eq hOther he hTags
      have hMemberOf := ((hMembers other.group.1 member).mp
        ⟨other.group, hEntries ▸ List.mem_map_of_mem hOther, rfl, hMember⟩).1.1.1
      obtain rfl := hValid.statementsKey.eq hMemberOf hs hEq.2
      exact hMember
    · exact fun hMember => List.mem_flatMap.mpr ⟨e, he, List.mem_map_of_mem hMember⟩
  have hMember (e : Entry) (he : e ∈ entries) (s : Statement) (hs : s ∈ e.group.2) :
      Clustered ctx.runId t s ∧ DomainOf ctx.services.platform t s e.group.1 :=
    (hMembers _ s).mp ⟨e.group, hEntries ▸ List.mem_map_of_mem he, rfl, hs⟩
  refine ⟨⟨?_, ?_, ?_, ?_, ?_⟩, ?_⟩
  · intro f hf
    obtain ⟨e, he, rfl⟩ := List.mem_map.mp hf
    exact (hFields e he).1
  · have hTags : (entries.map Entry.finding).map Finding.domainTags =
        (groups.map Prod.fst).map fun domain => [domain] := by
      rw [← hEntries, List.map_map, List.map_map, List.map_map]
      exact List.map_congr_left fun e he => (hFields e he).2
    rw [hTags]
    exact hDistinct.map fun _ _ hEq => (List.cons.inj hEq).1
  · intro s hs
    obtain ⟨domain, hAt⟩ := hDomain s hs
    obtain ⟨group, hIn, rfl, hMem⟩ := (hMembers domain s).mpr ⟨hs, hAt⟩
    rw [← hEntries] at hIn
    obtain ⟨e, he, rfl⟩ := List.mem_map.mp hIn
    refine ⟨e.finding, ⟨List.mem_map_of_mem he, (hLinked e he s hs.1.1).mpr hMem⟩, ?_⟩
    rintro f ⟨hf, hRow⟩
    obtain ⟨other, hOther, rfl⟩ := List.mem_map.mp hf
    have hThere := hMember other hOther s ((hLinked other hOther s hs.1.1).mp hRow)
    rw [hGroup.eq hOther he (hThere.2.unique hValid hAt)]
  · intro row hRow
    obtain ⟨e, he, hLink⟩ := List.mem_flatMap.mp hRow
    obtain ⟨s, hs, rfl⟩ := List.mem_map.mp hLink
    exact ⟨⟨e.finding, List.mem_map_of_mem he, rfl⟩, s, (hMember e he s hs).1, rfl⟩
  · intro f hf s hs hRow
    obtain ⟨e, he, rfl⟩ := List.mem_map.mp hf
    exact ⟨e.group.1, (hMember e he s ((hLinked e he s hs.1.1).mp hRow)).2, (hFields e he).2⟩
  · intro hLinks f hf
    obtain ⟨e, he, rfl⟩ := List.mem_map.mp hf
    obtain ⟨id, hFinding⟩ := hOf e he
    obtain ⟨best, hTier, hBest⟩ := @tierOf_isBest e.group.2 _ _ fun s _ =>
      @bestScore_isBest s.id (t.evidenceLinks.filter fun l => l.runId = ctx.runId)
    refine ⟨best, ?_, hBest.congr fun score => ?_⟩
    · rw [hFinding]
      exact hTier
    · constructor
      · rintro ⟨s, hs, link, hLink, hStatement, hMethod, hScore⟩
        have hCluster := (hMember e he s hs).1
        exact ⟨s, hCluster, (hLinked e he s hCluster.1.1).mpr hs, link,
          (List.mem_filter.mp hLink).1, hStatement, hMethod, hScore⟩
      · rintro ⟨s, hs, hRow, link, hLink, hStatement, hMethod, hScore⟩
        have hOwn := hLinks link hLink s hs.1.1 hStatement.symm hs.1.2.1
        exact ⟨s, (hLinked e he s hs.1.1).mp hRow, link,
          List.mem_filter.mpr ⟨hLink, by simpa using hOwn⟩, hStatement, hMethod, hScore⟩

end Partition

/-! ## The links of a run -/

section Links

variable {runId : Uuid} {t t' : Tables} {stage : Stage}

theorem LinksOwn.same (h : LinksOwn runId t) (hStatements : t'.statements = t.statements)
    (hLinks : t'.evidenceLinks = t.evidenceLinks) : LinksOwn runId t' := by
  simpa only [LinksOwn, hStatements, hLinks] using h

/-- The tasks write links of their run alone. -/
theorem LinksOwn.step (h : LinksOwn runId t) (hValid : t.Valid) (hValid' : t'.Valid)
    (hStep : TaskStep runId t stage t') : LinksOwn runId t' := by
  cases hStep with
  | metered hMeter => cases hMeter <;> exact h.same rfl rfl
  | extracted passage hPassage statements links hRows =>
      intro link hLink s hs hId hRun
      rcases List.mem_append.mp hLink with hOld | hNew
      · -- A link from before is to a statement from before.
        obtain ⟨old, hOldRow, hOldId⟩ := hValid.linksStatement link hOld
        rcases List.mem_append.mp hs with hBefore | hAdded
        · exact h link hOld s hBefore hId hRun
        · exact absurd (hOldId.trans hId.symm) (hValid'.statementsKey.append_ne hOldRow hAdded)
      · exact (hRows.resolved link hNew).2.2.1
  | verified statement hStatement passage hPassage decision link audit hRows =>
      intro other hOther s hs hId hRun
      rcases List.mem_append.mp hOther with hOld | hNew
      · rcases mem_modifyRow.mp hs with ⟨old, hOldRow, -, rfl⟩ | ⟨hOldRow, -⟩
        · exact h other hOld old hOldRow hId hRun
        · exact h other hOld s hOldRow hId hRun
      · obtain rfl := List.mem_singleton.mp hNew
        exact hRows.linkRun
  | _ => exact h.same rfl rfl

/-- In every history of a run which has begun without statements, the links to its statements are
its own. -/
theorem linksOwn_history {s w : World} {log : Log Vocabulary}
    (h : History (runJob runId) s log w) (hFresh : FreshRun runId s.tables) :
    LinksOwn runId w.tables := by
  refine (History.run_invariant (fun v : World => LinksOwn runId v.tables) (fun m hm hOwn => ?_) h
    hFresh.orderly ?_).1
  · rcases hm.touches with ⟨stage, hTask⟩ | hAside
    · exact hOwn.step m.before.db.valid m.after.db.valid hTask
    · exact hOwn.same hAside.statements hAside.evidenceLinks
  · exact fun _ _ s hs _ hRun => absurd hRun (hFresh.statements s hs)

end Links

/-! ## The stage -/

theorem runFind_clusters {ctx : PipelineContext} {s t : World} {log : Log Vocabulary}
    {result : StageResult} (h : Exec (runFind ctx) s log (.done result) t) :
    ∃ findings links, t.tables = { s.tables with
        findings := s.tables.findings ++ findings
        findingStatements := s.tables.findingStatements ++ links } ∧
      Clustering ctx.services.platform ctx.runId s.tables findings links ∧
        (LinksOwn ctx.runId s.tables → Tiered ctx.runId s.tables findings links) := by
  obtain ⟨sources, passages, rows, groups, entries, hSources, hPassages, hRows, hGroups, hEntries,
    hOf, hTables⟩ := runFind_done h
  refine ⟨_, _, hTables, ?_⟩
  have hMembers (domain : Text) (st : Statement) :=
    @inGroup_iff ctx s.tables sources passages rows groups s.db.valid hSources hPassages hRows hGroups
      domain st
  refine clustering_of_entries s.db.valid (groupByDomain_spec hGroups).domains hMembers ?_
    hEntries hOf ?_
  · intro st hCluster
    obtain ⟨passage, source, hPassage, -⟩ := found_origin s.db.valid hSources hPassages
      hCluster.1.2.1 hCluster.2
    have hVerified : st ∈ rows.filter fun row => row.status = .verified := by
      rw [List.mem_filter, hRows.mem_iff, List.mem_filter]
      exact ⟨⟨hCluster.1.1, by simpa using hCluster.1.2.1⟩, by simpa using hCluster.1.2.2⟩
    obtain ⟨domain, hPlaced, -⟩ := groupByDomain_placed hGroups hVerified hPassage
    exact ⟨domain, (placed_iff s.db.valid hSources hPassages hCluster.1.2.1 hCluster.2 domain).mp
      hPlaced⟩
  · have hKey := t.db.valid.findingsKey
    have hFindings : t.db.tables.findings = s.tables.findings ++ entries.map Entry.finding :=
      congrArg Tables.findings hTables
    rw [hFindings, Keyed, List.map_append] at hKey
    exact (List.nodup_append.mp hKey).2.1

/-- One complete execution of the find stage of a run, whatever rows it finds and in whatever order
it reads them. -/
theorem find_partitions {ctx : PipelineContext} {s t : World} {log : Log Vocabulary}
    {result : StageResult} (hLinks : LinksOwn ctx.runId s.tables)
    (h : Exec (runFind ctx) s log (.done result) t) :
    ∃ findings links, t.tables = { s.tables with
        findings := s.tables.findings ++ findings
        findingStatements := s.tables.findingStatements ++ links } ∧
      Clustering ctx.services.platform ctx.runId s.tables findings links ∧
      Tiered ctx.runId s.tables findings links := by
  obtain ⟨findings, links, hTables, hClustering, hTiered⟩ := runFind_clusters h
  exact ⟨findings, links, hTables, hClustering, hTiered hLinks⟩

/-! ## A run with one verified statement -/

/-- A run which is killed after each of its first six checkpoints. -/
def verifyCuts : List Nat := [22, 14, 24, 16, 28, 29]

/-- Its find stage. -/
def findServed : Log Vocabulary × Action StageResult × World :=
  simulate (({} : Served).outside fun _ => .grant) 20 0 (runFind ⟨⟨1⟩, ({} : Served).services⟩)
    (({} : Served).runs verifyCuts).2

theorem find_partitions_served :
    findServed.2.2.tables.findings.map Finding.evidenceTier = [.t1] ∧
      ∃ findings links, findServed.2.2.tables =
          { (({} : Served).runs verifyCuts).2.tables with
            findings := (({} : Served).runs verifyCuts).2.tables.findings ++ findings
            findingStatements :=
              (({} : Served).runs verifyCuts).2.tables.findingStatements ++ links } ∧
        Clustering ({} : Served).platform ⟨1⟩ (({} : Served).runs verifyCuts).2.tables findings
          links ∧
        Tiered ⟨1⟩ (({} : Served).runs verifyCuts).2.tables findings links := by
  have hRun : findServed.2.1.returned.isSome ∧
      findServed.2.2.tables.findings.map Finding.evidenceTier = [.t1] := by
    decide +kernel
  obtain ⟨result, hResult⟩ := Option.isSome_iff_exists.mp hRun.1
  have hHistory : History (runJob ⟨1⟩) (World.submitted 1) (({} : Served).runs verifyCuts).1
      (({} : Served).runs verifyCuts).2 :=
    simulateRuns_history (.flow ({} : Served).services : RunJob) (fun _ => trivial) _ _ _ _
  have hExec : Exec (runFind ⟨⟨1⟩, ({} : Served).services⟩) (({} : Served).runs verifyCuts).2
      findServed.1 (.done result) findServed.2.2 :=
    Prog.eq_done hResult ▸ simulate_exec _ _ _ _ _
  exact ⟨hRun.2, find_partitions (linksOwn_history hHistory (World.submitted_fresh 1)) hExec⟩

end Ecrke
