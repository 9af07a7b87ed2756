import Ecrke.Guarantees.Provenance
import Ecrke.Pipeline.FlowLaws

/-!
# Findings and the domains of the verified statements

The find stage groups the verified statements of a run by the domain of their source and commits one
finding for each group.  It starts from the top whenever it is executed, so what it finds in the
table when it starts stays there.

* `Placed`, `Grouped` -- the domain of a statement, and the groups of a list of statements.
* `DomainOf`, `FindingsMatch` -- what the findings of a run should be.
* `runFind_findings` -- the stage, started with no finding of the run in the table.
* `findings_match` -- the findings of every run whose find stage was always started so.
* `findings_match_fails` -- a run whose find stage was cut off after its first commit.
-/

namespace Ecrke

open Durable

/-! ## Groups -/

/-- The place of a statement: the passage and the source which it comes from have been read, and the
address has a domain. -/
def Placed (p : Platform) (sources : List Source) (passages : List Passage) (statement : Statement)
    (domain : Text) : Prop :=
  ∃ passage, findRow Passage.id statement.passageId passages = some passage ∧
    netlocOf p (((findRow Source.id passage.sourceId sources).map Source.uri).getD []) = .ok domain

/-- A statement is in the group of a domain. -/
def InGroup (groups : List (Text × List Statement)) (domain : Text) (statement : Statement) :
    Prop :=
  ∃ group ∈ groups, group.1 = domain ∧ statement ∈ group.2

/-- The groups of a list of statements: one for each domain, none empty. -/
structure Grouped (place : Statement → Text → Prop) (statements : List Statement)
    (groups : List (Text × List Statement)) : Prop where
  domains : (groups.map Prod.fst).Nodup
  members : ∀ domain statement, InGroup groups domain statement ↔
    statement ∈ statements ∧ place statement domain
  nonempty : ∀ group ∈ groups, group.2 ≠ []

section Groups

variable {domain : Text} {statement : Statement} {groups : List (Text × List Statement)}

theorem addToDomain_domains :
    (addToDomain domain statement groups).map Prod.fst =
      if domain ∈ groups.map Prod.fst then groups.map Prod.fst
      else groups.map Prod.fst ++ [domain] := by
  induction groups with
  | nil => simp [addToDomain]
  | cons group rest ih =>
      obtain ⟨other, members⟩ := group
      by_cases hSame : other = domain
      · simp [addToDomain, hSame]
      · simp only [addToDomain, hSame, if_false, List.map_cons, ih, List.mem_cons,
          Ne.symm hSame, false_or]
        split <;> simp

theorem inGroup_addToDomain {other : Text} {s : Statement} :
    InGroup (addToDomain domain statement groups) other s ↔
      InGroup groups other s ∨ (other = domain ∧ s = statement) := by
  induction groups with
  | nil =>
      simp only [InGroup, addToDomain, List.mem_singleton, exists_eq_left, List.not_mem_nil,
        false_and, exists_false, false_or]
      exact and_congr_left' eq_comm
  | cons group rest ih =>
      obtain ⟨first, members⟩ := group
      by_cases hSame : first = domain
      · subst hSame
        simp only [InGroup, addToDomain, if_true, List.mem_cons, exists_eq_or_imp,
          List.mem_append, List.not_mem_nil, or_false]
        rw [eq_comm (a := other), and_or_left]
        exact or_right_comm
      · have hCons (gs : List (Text × List Statement)) :
            InGroup ((first, members) :: gs) other s ↔
              (first = other ∧ s ∈ members) ∨ InGroup gs other s := by
          simp [InGroup]
        simp only [addToDomain, hSame, if_false, hCons, ih, or_assoc]

theorem addToDomain_nonempty (h : ∀ group ∈ groups, group.2 ≠ []) :
    ∀ group ∈ addToDomain domain statement groups, group.2 ≠ [] := by
  induction groups with
  | nil => simp [addToDomain]
  | cons group rest ih =>
      obtain ⟨other, members⟩ := group
      have hRest := ih fun g hg => h g (List.mem_cons_of_mem _ hg)
      by_cases hSame : other = domain
      · simp only [addToDomain, hSame, if_true, List.forall_mem_cons]
        exact ⟨by simp, fun g hg => h g (List.mem_cons_of_mem _ hg)⟩
      · simp only [addToDomain, hSame, if_false, List.forall_mem_cons]
        exact ⟨h _ (List.mem_cons_self ..), hRest⟩

theorem Grouped.nil {place : Statement → Text → Prop} : Grouped place [] [] :=
  ⟨by simp, by simp [InGroup], by simp⟩

/-- One more statement which has a place. -/
theorem Grouped.placed {place : Statement → Text → Prop} {statements : List Statement}
    (h : Grouped place statements groups) (hPlace : ∀ d, place statement d ↔ d = domain) :
    Grouped place (statements ++ [statement]) (addToDomain domain statement groups) := by
  refine ⟨?_, fun other s => ?_, addToDomain_nonempty h.nonempty⟩
  · rw [addToDomain_domains]
    split
    · exact h.domains
    · exact List.Nodup.append h.domains (List.nodup_singleton _)
        (List.disjoint_singleton.mpr ‹_›)
  · rw [inGroup_addToDomain, h.members, List.mem_append, List.mem_singleton]
    constructor
    · rintro (⟨hMem, hAt⟩ | ⟨rfl, rfl⟩)
      · exact ⟨.inl hMem, hAt⟩
      · exact ⟨.inr rfl, (hPlace _).mpr rfl⟩
    · rintro ⟨hMem | rfl, hAt⟩
      · exact .inl ⟨hMem, hAt⟩
      · exact .inr ⟨(hPlace _).mp hAt, rfl⟩

/-- One more statement which has no place. -/
theorem Grouped.skipped {place : Statement → Text → Prop} {statements : List Statement}
    (h : Grouped place statements groups) (hPlace : ∀ d, ¬ place statement d) :
    Grouped place (statements ++ [statement]) groups := by
  refine ⟨h.domains, fun other s => ?_, h.nonempty⟩
  rw [h.members, List.mem_append, List.mem_singleton]
  constructor
  · exact fun ⟨hMem, hAt⟩ => ⟨.inl hMem, hAt⟩
  · rintro ⟨hMem | rfl, hAt⟩
    · exact ⟨hMem, hAt⟩
    · exact absurd hAt (hPlace _)

end Groups

/-- One turn of the loop of `groupByDomain`. -/
def groupStatement (p : Platform) (sources : List Source) (passages : List Passage)
    (domains : List (Text × List Statement)) (statement : Statement) :
    Except PyError (List (Text × List Statement)) :=
  match findRow Passage.id statement.passageId passages with
  | none => .ok domains
  | some passage => do
      let uri := ((findRow Source.id passage.sourceId sources).map Source.uri).getD []
      let domain ← netlocOf p uri
      pure (addToDomain domain statement domains)

theorem groupStatement_spec {p : Platform} {sources : List Source} {passages : List Passage}
    {done : List Statement} {acc acc' : List (Text × List Statement)} {statement : Statement}
    (h : Grouped (Placed p sources passages) done acc)
    (hStep : groupStatement p sources passages acc statement = .ok acc') :
    Grouped (Placed p sources passages) (done ++ [statement]) acc' := by
  unfold groupStatement at hStep
  cases hPassage : findRow Passage.id statement.passageId passages with
  | none =>
      rw [hPassage] at hStep
      cases hStep
      exact h.skipped fun d ⟨_, hFound, _⟩ => by simp [hPassage] at hFound
  | some passage =>
      simp only [hPassage] at hStep
      cases hDomain : netlocOf p
          (((findRow Source.id passage.sourceId sources).map Source.uri).getD []) with
      | error error =>
          rw [hDomain] at hStep
          cases hStep
      | ok domain =>
          rw [hDomain] at hStep
          cases hStep
          refine h.placed fun d => ⟨?_, ?_⟩
          · rintro ⟨found, hFound, hAt⟩
            rw [hPassage] at hFound
            cases hFound
            rw [hDomain] at hAt
            cases hAt
            rfl
          · rintro rfl
            exact ⟨passage, hPassage, hDomain⟩

theorem groupByDomain_spec {p : Platform} {sources : List Source} {passages : List Passage}
    {statements : List Statement} {groups : List (Text × List Statement)}
    (h : groupByDomain p sources passages statements = .ok groups) :
    Grouped (Placed p sources passages) statements groups := by
  -- The groups of a first part of the list are in the accumulator.
  suffices hRest : ∀ (rest done : List Statement) (acc : List (Text × List Statement)),
      Grouped (Placed p sources passages) done acc →
      rest.foldlM (groupStatement p sources passages) acc = .ok groups →
      Grouped (Placed p sources passages) (done ++ rest) groups from
    hRest statements [] [] .nil h
  intro rest
  induction rest with
  | nil =>
      intro done acc hAcc hFold
      cases hFold
      simpa using hAcc
  | cons statement rest ih =>
      intro done acc hAcc hFold
      rw [List.foldlM_cons] at hFold
      cases hStep : groupStatement p sources passages acc statement with
      | error error =>
          rw [hStep] at hFold
          cases hFold
      | ok acc' =>
          rw [hStep] at hFold
          simpa using ih (done ++ [statement]) acc' (groupStatement_spec hAcc hStep) hFold

theorem groupByDomain_placed {p : Platform} {sources : List Source} {passages : List Passage}
    {statements : List Statement} {groups : List (Text × List Statement)}
    (h : groupByDomain p sources passages statements = .ok groups) {statement : Statement}
    (hMem : statement ∈ statements) {passage : Passage}
    (hPassage : findRow Passage.id statement.passageId passages = some passage) :
    ∃! domain, Placed p sources passages statement domain := by
  suffices hRest : ∀ (rest : List Statement) (acc : List (Text × List Statement)),
      rest.foldlM (groupStatement p sources passages) acc = .ok groups → statement ∈ rest →
      ∃ domain, Placed p sources passages statement domain by
    obtain ⟨domain, found, hFound, hDomain⟩ := hRest statements [] h hMem
    refine ⟨domain, ⟨found, hFound, hDomain⟩, ?_⟩
    rintro other ⟨found', hFound', hOther⟩
    rw [hFound] at hFound'
    cases hFound'
    rw [hDomain] at hOther
    cases hOther
    rfl
  intro rest
  induction rest with
  | nil => simp
  | cons other rest ih =>
      intro acc hFold hMem
      rw [List.foldlM_cons] at hFold
      cases hStep : groupStatement p sources passages acc other with
      | error error =>
          rw [hStep] at hFold
          cases hFold
      | ok acc' =>
          rw [hStep] at hFold
          rcases List.mem_cons.mp hMem with rfl | hLater
          · simp only [groupStatement, hPassage] at hStep
            cases hDomain : netlocOf p
                (((findRow Source.id passage.sourceId sources).map Source.uri).getD []) with
            | error error =>
                rw [hDomain] at hStep
                cases hStep
            | ok domain => exact ⟨domain, passage, hPassage, hDomain⟩
          · exact ih acc' hFold hLater

/-! ## What the findings should be -/

/-- A verified statement of a run. -/
def VerifiedOf (runId : Uuid) (t : Tables) (statement : Statement) : Prop :=
  statement ∈ t.statements ∧ statement.runId = runId ∧ statement.status = .verified

/-- The domain of the source which a statement comes from. -/
def DomainOf (p : Platform) (t : Tables) (statement : Statement) (domain : Text) : Prop :=
  ∃ passage ∈ t.passages, passage.id = statement.passageId ∧
    ∃ source ∈ t.sources, source.id = passage.sourceId ∧ netlocOf p source.uri = .ok domain

/-- One finding for each domain of a verified statement and no other one, and each verified
statement is linked to the finding of its domain alone. -/
structure FindingsMatch (p : Platform) (runId : Uuid) (t : Tables) : Prop where
  each : ∀ s, VerifiedOf runId t s → ∀ domain, DomainOf p t s domain →
    ∃! finding, finding ∈ t.findings ∧ finding.runId = runId ∧ finding.domainTags = [domain]
  only : ∀ finding ∈ t.findings, finding.runId = runId → ∃ s domain, VerifiedOf runId t s ∧
    DomainOf p t s domain ∧ finding.domainTags = [domain]
  linked : ∀ s, VerifiedOf runId t s → ∃ finding ∈ t.findings, finding.runId = runId ∧
    (∃ domain, DomainOf p t s domain ∧ finding.domainTags = [domain]) ∧
    ⟨finding.id, s.id⟩ ∈ t.findingStatements ∧
    ∀ row ∈ t.findingStatements, row.statementId = s.id → row.findingId = finding.id

/-- The statements of a run are linked to findings of the run. -/
def FindingLinksOwn (runId : Uuid) (t : Tables) : Prop :=
  ∀ row ∈ t.findingStatements, ∀ s ∈ t.statements, s.id = row.statementId → s.runId = runId →
    ∃ finding ∈ t.findings, finding.id = row.findingId ∧ finding.runId = runId

/-- A group and the finding which is made of it. -/
structure Entry where
  group : Text × List Statement
  finding : Finding

/-- The links of the finding of a group. -/
def Entry.links (entry : Entry) : List FindingStatement :=
  entry.group.2.map fun s => ⟨entry.finding.id, s.id⟩

/-- The tables with the rows of some groups. -/
def Ledger (runId : Uuid) (t : Tables) (groups : List (Text × List Statement)) (t' : Tables) :
    Prop :=
  ∃ entries : List Entry, entries.map Entry.group = groups ∧
    (∀ e ∈ entries, e.finding.runId = runId ∧ e.finding.domainTags = [e.group.1]) ∧
    t' = { t with
      findings := t.findings ++ entries.map Entry.finding
      findingStatements := t.findingStatements ++ entries.flatMap Entry.links }

section Ledgers

variable {runId : Uuid} {p : Platform} {t t' : Tables} {groups : List (Text × List Statement)}

theorem Ledger.nil : Ledger runId t [] t := ⟨[], rfl, by simp, by simp⟩

theorem Ledger.snoc (entry : Entry) (h : Ledger runId t groups t')
    (hRun : entry.finding.runId = runId) (hTags : entry.finding.domainTags = [entry.group.1]) :
    Ledger runId t (groups ++ [entry.group]) { t' with
      findings := t'.findings ++ [entry.finding]
      findingStatements := t'.findingStatements ++ entry.links } := by
  obtain ⟨entries, rfl, hEntries, rfl⟩ := h
  refine ⟨entries ++ [entry], by simp, fun e he => ?_, by simp⟩
  rcases List.mem_append.mp he with hOld | hNew
  · exact hEntries e hOld
  · rw [List.mem_singleton.mp hNew]
    exact ⟨hRun, hTags⟩

theorem FindingLinksOwn.recorded (h : FindingLinksOwn runId t) {finding : Finding}
    (hRun : finding.runId = runId) {links : List FindingStatement}
    (hLinks : ∀ row ∈ links, row.findingId = finding.id) :
    FindingLinksOwn runId { t with
      findings := t.findings ++ [finding], findingStatements := t.findingStatements ++ links } := by
  intro row hRow s hs hId hOwn
  rcases List.mem_append.mp hRow with hOld | hNew
  · obtain ⟨other, hOther, hKey⟩ := h row hOld s hs hId hOwn
    exact ⟨other, List.mem_append_left _ hOther, hKey⟩
  · exact ⟨finding, List.mem_append_right _ (List.mem_singleton_self _),
      (hLinks row hNew).symm, hRun⟩

/-- The stage has read the passage and the source of each statement. -/
theorem found_origin (hValid : t.Valid) {sources : List Source} {passages : List Passage}
    (hSources : sources = t.sources.filter fun s => s.runId = runId)
    (hPassages : passages = t.passages.filter fun p => sources.any fun s => s.id = p.sourceId)
    {s : Statement} (hRun : s.runId = runId) (hResolves : StatementResolves s t) :
    ∃ passage source, findRow Passage.id s.passageId passages = some passage ∧
      findRow Source.id passage.sourceId sources = some source ∧
      (passage ∈ t.passages ∧ passage.id = s.passageId) ∧
      source ∈ t.sources ∧ source.id = passage.sourceId := by
  obtain ⟨passage, hPassage, hMem, source, hSource, hId, hOwn⟩ := hResolves
  have hSource' : source ∈ sources := by
    rw [hSources, List.mem_filter]
    exact ⟨hSource, by simpa using hOwn.trans hRun⟩
  have hMem' : passage ∈ passages := by
    rw [hPassages, List.mem_filter]
    exact ⟨hMem, by simpa using ⟨source, hSource', hId⟩⟩
  refine ⟨passage, source, ?_, ?_, ⟨hMem, hPassage⟩, hSource, hId⟩
  · have hKey : Keyed Passage.id passages := hPassages ▸ hValid.passagesKey.filter _
    exact hPassage ▸ hKey.findRow_eq hMem'
  · have hKey : Keyed Source.id sources := hSources ▸ hValid.sourcesKey.filter _
    exact hId ▸ hKey.findRow_eq hSource'

/-- Where a statement comes from, in the rows which the stage has read. -/
theorem placed_iff (hValid : t.Valid) {sources : List Source} {passages : List Passage}
    (hSources : sources = t.sources.filter fun s => s.runId = runId)
    (hPassages : passages = t.passages.filter fun p => sources.any fun s => s.id = p.sourceId)
    {s : Statement} (hRun : s.runId = runId) (hResolves : StatementResolves s t) (domain : Text) :
    Placed p sources passages s domain ↔ DomainOf p t s domain := by
  obtain ⟨passage, source, hFoundPassage, hFoundSource, ⟨hMem, hPassage⟩, hSource, hId⟩ :=
    found_origin hValid hSources hPassages hRun hResolves
  constructor
  · rintro ⟨found, hFound, hDomain⟩
    rw [hFoundPassage] at hFound
    cases hFound
    rw [hFoundSource] at hDomain
    exact ⟨passage, hMem, hPassage, source, hSource, hId, hDomain⟩
  · rintro ⟨other, hOther, hOtherId, from_, hFrom, hFromId, hDomain⟩
    obtain rfl := hValid.passagesKey.eq hOther hMem (hOtherId.trans hPassage.symm)
    obtain rfl := hValid.sourcesKey.eq hFrom hSource (hFromId.trans hId.symm)
    exact ⟨other, hFoundPassage, by rw [hFoundSource]; exact hDomain⟩

/-- The findings of a complete ledger which was opened without one. -/
theorem Ledger.findingsMatch (hValid : t.Valid)
    (hNone : ∀ finding ∈ t.findings, finding.runId ≠ runId) (hOwn : FindingLinksOwn runId t)
    {place : Statement → Text → Prop} {statements : List Statement}
    (hStatements : ∀ s, s ∈ statements ↔ VerifiedOf runId t s)
    (hPlace : ∀ s, VerifiedOf runId t s → ∀ domain, place s domain ↔ DomainOf p t s domain)
    (hPlaced : ∀ s, VerifiedOf runId t s → ∃! domain, place s domain)
    (hGroups : Grouped place statements groups) (h : Ledger runId t groups t') :
    FindingsMatch p runId t' := by
  obtain ⟨entries, rfl, hEntries, rfl⟩ := h
  -- The entry of a domain is the only one, and so is its finding among those of the run.
  have hKey : Keyed (fun e : Entry => e.group.1) entries := by
    simpa [Keyed, Function.comp_def] using hGroups.domains
  have hFinding (f : Finding) (hMem : f ∈ t.findings ++ entries.map Entry.finding)
      (hRun : f.runId = runId) : ∃ e ∈ entries, e.finding = f := by
    rcases List.mem_append.mp hMem with hOld | hNew
    · exact absurd hRun (hNone f hOld)
    · simpa using hNew
  have hEntry (s : Statement) (hs : VerifiedOf runId t s) (domain : Text) (hd : place s domain) :
      ∃ e ∈ entries, e.group.1 = domain ∧ s ∈ e.group.2 := by
    obtain ⟨group, hGroup, hDomain, hIn⟩ :=
      (hGroups.members domain s).mpr ⟨(hStatements s).mpr hs, hd⟩
    obtain ⟨e, he, rfl⟩ := List.mem_map.mp hGroup
    exact ⟨e, he, hDomain, hIn⟩
  have hMember (e : Entry) (he : e ∈ entries) (s : Statement) (hs : s ∈ e.group.2) :
      VerifiedOf runId t s ∧ place s e.group.1 := by
    obtain ⟨hMem, hAt⟩ := (hGroups.members e.group.1 s).mp
      ⟨e.group, List.mem_map_of_mem he, rfl, hs⟩
    exact ⟨(hStatements s).mp hMem, hAt⟩
  refine ⟨fun s hs domain hDomain => ?_, fun f hf hRun => ?_, fun s hs => ?_⟩
  · obtain ⟨e, he, rfl, -⟩ := hEntry s hs domain ((hPlace s hs domain).mpr hDomain)
    refine ⟨e.finding, ⟨List.mem_append_right _ (List.mem_map_of_mem he), hEntries e he⟩, ?_⟩
    rintro f ⟨hf, hRun, hTags⟩
    obtain ⟨other, hOther, rfl⟩ := hFinding f hf hRun
    have hSame : other.group.1 = e.group.1 := by
      simpa [(hEntries other hOther).2] using hTags
    rw [hKey.eq hOther he hSame]
  · obtain ⟨e, he, rfl⟩ := hFinding f hf hRun
    obtain ⟨s, hs⟩ := List.exists_mem_of_ne_nil _
      (hGroups.nonempty e.group (List.mem_map_of_mem he))
    obtain ⟨hVerified, hAt⟩ := hMember e he s hs
    exact ⟨s, e.group.1, hVerified, (hPlace s hVerified _).mp hAt, (hEntries e he).2⟩
  · obtain ⟨domain, hDomain, hOnly⟩ := hPlaced s hs
    obtain ⟨e, he, rfl, hIn⟩ := hEntry s hs domain hDomain
    refine ⟨e.finding, List.mem_append_right _ (List.mem_map_of_mem he), (hEntries e he).1,
      ⟨_, (hPlace s hs _).mp hDomain, (hEntries e he).2⟩, ?_, fun row hRow hStatement => ?_⟩
    · refine List.mem_append_right _ (List.mem_flatMap.mpr ⟨e, he, ?_⟩)
      exact List.mem_map_of_mem hIn
    · rcases List.mem_append.mp hRow with hOld | hNew
      · obtain ⟨f, hf, -, hRun⟩ := hOwn row hOld s hs.1 hStatement.symm hs.2.1
        exact absurd hRun (hNone f hf)
      · obtain ⟨other, hOther, hLink⟩ := List.mem_flatMap.mp hNew
        obtain ⟨s', hs', rfl⟩ := List.mem_map.mp hLink
        obtain ⟨hVerified, hAt⟩ := hMember other hOther s' hs'
        obtain rfl := hValid.statementsKey.eq hVerified.1 hs.1 hStatement
        rw [hKey.eq hOther he (hOnly _ hAt)]

end Ledgers

/-! ## The find stage -/

section Stage

variable {s : World}

/-- A step of the find stage of a run. -/
def FindMoment (runId : Uuid) (m : Moment Vocabulary) : Prop :=
  TaskMoment runId .find m ∧
    (FindingLinksOwn runId m.before.tables → FindingLinksOwn runId m.after.tables)

theorem FindMoment.of_quiet {runId : Uuid} (m : Moment Vocabulary) (h : Quiet m) :
    FindMoment runId m := by
  refine ⟨.of_quiet m h, fun hOwn => ?_⟩
  rwa [World.tables, h.1]

theorem recordFinding_spec (ctx : PipelineContext) (links : List EvidenceLink) {t : Tables}
    {groups : List (Text × List Statement)} (group : Text × List Statement)
    (h : Ledger ctx.runId t groups s.tables) :
    Alone (FindMoment ctx.runId)
      (onOk fun _ w => Ledger ctx.runId t (groups ++ [group]) w.tables)
      (recordFinding ctx links group) s := by
  refine Alone.ask FindMoment.of_quiet fun id => ?_
  -- One transaction adds the finding of the group and its links.
  refine Alone.commitWrites FindMoment.of_quiet (fun w hw => ?_) fun _ _ => trivial
  have hRows : (group.2.map fun s => Write.insertFindingStatement ⟨id, s.id⟩) =
      (group.2.map fun s => (⟨id, s.id⟩ : FindingStatement)).map .insertFindingStatement := by
    simp
  rw [Tables.after_cons, hRows, Tables.after_insertFindingStatements] at hw
  refine ⟨⟨.moved ?_, fun hOwn => ?_⟩, ?_, fun _ _ => trivial⟩
  · rw [hw]
    exact .found _ _
  · rw [hw]
    exact hOwn.recorded rfl fun row hRow => by
      obtain ⟨_, _, rfl⟩ := List.mem_map.mp hRow
      rfl
  · rw [onOk_ok, hw]
    exact h.snoc ⟨group, _⟩ rfl rfl

theorem recordFindings_spec (ctx : PipelineContext) (links : List EvidenceLink)
    (groups : List (Text × List Statement)) :
    Alone (FindMoment ctx.runId) (onOk fun _ w => Ledger ctx.runId s.tables groups w.tables)
      (groups.forM (recordFinding ctx links)) s := by
  refine Alone.forM (fun rest (w : World) => ∃ made, groups = made ++ rest ∧
    Ledger ctx.runId s.tables made w.tables) ?_ ?_ groups ⟨[], rfl, .nil⟩
  · rintro group rest w ⟨made, rfl, hLedger⟩
    refine (recordFinding_spec ctx links group hLedger).post fun r u hu => ?_
    cases r with
    | error error => trivial
    | ok value => exact ⟨made ++ [group], by simp, hu⟩
  · rintro w ⟨made, hMade, hLedger⟩
    rw [List.append_nil] at hMade
    exact hMade ▸ hLedger

/-- The find stage, started with no finding of the run in the table. -/
theorem runFind_findings (ctx : PipelineContext)
    (hNone : ∀ finding ∈ s.tables.findings, finding.runId ≠ ctx.runId)
    (hOwn : FindingLinksOwn ctx.runId s.tables)
    (hResolve : ∀ row ∈ s.tables.statements, row.runId = ctx.runId →
      StatementResolves row s.tables) :
    Alone (FindMoment ctx.runId)
      (onOk fun _ t => FindingsMatch ctx.services.platform ctx.runId t.tables)
      (runFind ctx) s := by
  have hRest (sources : List Source) (passages : List Passage)
      (hSources : sources = s.tables.sources.filter fun row => row.runId = ctx.runId)
      (hPassages : passages = s.tables.passages.filter fun row =>
        sources.any fun source => source.id = row.sourceId) :
      Alone (FindMoment ctx.runId)
        (onOk fun _ t => FindingsMatch ctx.services.platform ctx.runId t.tables)
        (findAmong ctx sources passages) s := by
    refine Alone.bind_ok (fun rows t => t = s ∧
      rows.Perm (s.tables.statements.filter fun row => row.runId = ctx.runId))
      (Alone.selectRows FindMoment.of_quiet (fun rows hRows => ⟨rfl, hRows⟩) fun _ _ => trivial) ?_
    rintro rows t ⟨rfl, hRows⟩
    refine Alone.withTables FindMoment.of_quiet ?_ fun _ _ => trivial
    refine Alone.bind_ok _ (Alone.ofExcept_eq _) ?_
    rintro groups u ⟨rfl, hGroup⟩
    refine Alone.bind_ok (fun _ (w : World) => Ledger ctx.runId u.tables groups w.tables)
      (recordFindings_spec ctx _ groups) fun _ w hLedger => ?_
    have hVerified (row : Statement) : row ∈ rows.filter (fun s => s.status = .verified) ↔
        VerifiedOf ctx.runId u.tables row := by
      simp [VerifiedOf, hRows.mem_iff, and_assoc]
    have hPlace (row : Statement) (hRow : VerifiedOf ctx.runId u.tables row) :=
      placed_iff (p := ctx.services.platform) u.db.valid hSources hPassages hRow.2.1
        (hResolve row hRow.1 hRow.2.1)
    refine Alone.done (hLedger.findingsMatch u.db.valid hNone hOwn hVerified hPlace ?_
      (groupByDomain_spec hGroup))
    intro row hRow
    obtain ⟨passage, _, hPassage, -⟩ := found_origin u.db.valid hSources hPassages hRow.2.1
      (hResolve row hRow.1 hRow.2.1)
    exact groupByDomain_placed hGroup ((hVerified row).mpr hRow) hPassage
  unfold runFind
  refine Alone.withTables FindMoment.of_quiet ?_ fun _ _ => trivial
  refine Alone.ite (fun hEmpty => hRest _ _ rfl ?_) (fun _ => ?_)
  · rw [List.isEmpty_iff.mp hEmpty]
    simp
  · exact Alone.withTables FindMoment.of_quiet (hRest _ _ rfl rfl) fun _ _ => trivial

end Stage

/-! ## The other stages -/

section Others

variable {runId : Uuid} {p : Platform} {t t' : Tables} {stage : Stage}

/-- The tables which the find stage reads and writes are the same. -/
structure SameFindings (t t' : Tables) : Prop where
  sources : t'.sources = t.sources
  passages : t'.passages = t.passages
  statements : t'.statements = t.statements
  findings : t'.findings = t.findings
  findingStatements : t'.findingStatements = t.findingStatements

theorem FindingsMatch.same (h : FindingsMatch p runId t) (hSame : SameFindings t t') :
    FindingsMatch p runId t' := by
  constructor
  all_goals simp only [VerifiedOf, DomainOf, hSame.sources, hSame.passages, hSame.statements,
    hSame.findings, hSame.findingStatements]
  · exact h.each
  · exact h.only
  · exact h.linked

theorem FindingLinksOwn.same (h : FindingLinksOwn runId t) (hSame : SameFindings t t') :
    FindingLinksOwn runId t' := by
  simpa only [FindingLinksOwn, hSame.statements, hSame.findings, hSame.findingStatements] using h

/-- Links to statements stay the links of the run when the statements keep their keys. -/
theorem FindingLinksOwn.mono (h : FindingLinksOwn runId t)
    (hFindings : t'.findings = t.findings) (hLinks : t'.findingStatements = t.findingStatements)
    (hStatements : ∀ s ∈ t'.statements, ∀ row ∈ t.findingStatements, s.id = row.statementId →
      ∃ old ∈ t.statements, old.id = s.id ∧ old.runId = s.runId) : FindingLinksOwn runId t' := by
  intro row hRow s hs hId hRun
  rw [hLinks] at hRow
  obtain ⟨old, hOld, hOldId, hOldRun⟩ := hStatements s hs row hRow hId
  rw [hFindings]
  exact h row hRow old hOld (hOldId.trans hId) (hOldRun.trans hRun)

/-- The tasks of the other stages write no finding. -/
theorem FindingLinksOwn.step (h : FindingLinksOwn runId t) (hValid : t.Valid) (hValid' : t'.Valid)
    (hStage : stage ≠ .find) (hStep : TaskStep runId t stage t') : FindingLinksOwn runId t' := by
  cases hStep with
  | metered hMeter => cases hMeter <;> exact h.same ⟨rfl, rfl, rfl, rfl, rfl⟩
  | extracted passage hPassage statements links hRows =>
      refine h.mono rfl rfl fun s hs row hRow hId => ?_
      rcases List.mem_append.mp hs with hOld | hNew
      · exact ⟨s, hOld, rfl, rfl⟩
      · obtain ⟨old, hOld, hOldId⟩ := hValid.findingStatementsStatement row hRow
        exact absurd (hOldId.trans hId.symm) (hValid'.statementsKey.append_ne hOld hNew)
  | verified statement hStatement passage hPassage decision link audit hRows =>
      refine h.mono rfl rfl fun s hs row hRow hId => ?_
      rcases mem_modifyRow.mp hs with ⟨old, hOld, -, rfl⟩ | ⟨hOld, -⟩
      · exact ⟨old, hOld, rfl, rfl⟩
      · exact ⟨s, hOld, rfl, rfl⟩
  | found findings findingStatements => exact absurd rfl hStage
  | collected | stored | contradicted | concluded | finalized =>
      exact h.mono rfl rfl fun s hs _ _ _ => ⟨s, hs, rfl, rfl⟩

/-- The later stages leave alone what the find stage has read and written. -/
theorem TaskStep.sameFindings (hStep : TaskStep runId t stage t')
    (hLater : Stage.find.index < stage.index) : SameFindings t t' := by
  cases hStep with
  | metered hMeter => cases hMeter <;> exact ⟨rfl, rfl, rfl, rfl, rfl⟩
  | contradicted | concluded | finalized => exact ⟨rfl, rfl, rfl, rfl, rfl⟩
  | _ => exact absurd hLater (by decide)

/-- The findings of a run, from the checkpoint of the find stage on. -/
def findingsMilestone (runId : Uuid) (p : Platform) : Milestone runId p .find where
  Always w _ := ProvenanceClosed runId w.tables ∧ FindingLinksOwn runId w.tables
  Reached w _ := FindingsMatch p runId w.tables
  May w := ∀ finding ∈ w.tables.findings, finding.runId ≠ runId
  Left _ w _ := FindingsMatch p runId w.tables
  always_control := by
    rintro l m hControl ⟨hClosed, hOwn⟩
    obtain ⟨runs, rows, hTables⟩ := hControl.tables
    rw [hTables]
    exact ⟨hClosed.frame (.of_eq (.of_eq rfl rfl) rfl) rfl rfl rfl rfl,
      hOwn.same ⟨rfl, rfl, rfl, rfl, rfl⟩⟩
  reached_control := by
    intro l m hControl hMatch
    obtain ⟨runs, rows, hTables⟩ := hControl.tables
    rw [hTables]
    exact hMatch.same ⟨rfl, rfl, rfl, rfl, rfl⟩
  always_saved := by
    rintro w v l row ⟨hClosed, hOwn⟩ - hTables
    rw [hTables]
    exact ⟨hClosed.frame (.of_eq (.of_eq rfl rfl) rfl) rfl rfl rfl rfl,
      hOwn.same ⟨rfl, rfl, rfl, rfl, rfl⟩⟩
  reached_saved := by
    intro w v l row _ hMatch _ hTables
    rw [hTables]
    exact hMatch.same ⟨rfl, rfl, rfl, rfl, rfl⟩
  task := by
    intro stage services t l hStage _ _
    refine wp_of_given (fun l m hTask => ⟨?_, fun hLater _ hMatch => ?_⟩) _ _ _
    · rintro ⟨hClosed, hOwn⟩
      exact ⟨hClosed.step m.before.db.valid m.after.db.valid hTask.1,
        hOwn.step m.before.db.valid m.after.db.valid hStage hTask.1⟩
    · exact hMatch.same (hTask.1.sameFindings hLater)
  turn := by
    rintro services t l rfl hMay ⟨hClosed, hOwn⟩
    refine wp_of_alone (runFind_findings ⟨runId, services⟩ hMay hOwn hClosed.statements) ?_ ?_
    · rintro l m - ⟨hTask, hKept⟩ ⟨hClosed, hOwn⟩
      exact ⟨hClosed.step m.before.db.valid m.after.db.valid hTask.1, hKept hOwn⟩
    · rintro r w l hMatch result rfl -
      exact hMatch
  left_still _ _ _ _ h := h
  left_saved := by
    intro result id w v l _ _ hMatch _ hTables
    rw [hTables]
    exact hMatch.same ⟨rfl, rfl, rfl, rfl, rfl⟩

end Others

/-- The findings of a run whose find stage has always started with no finding of the run in the
table: from its checkpoint on there is one for each domain of the verified statements, and each
of these is linked to the finding of its domain alone. -/
theorem findings_match {runId : Uuid} {p : Platform} {s t : World} {log : Log Vocabulary}
    (hFresh : FreshRun runId s.tables)
    (h : HistoryWhere (flowJob runId) (fun services _ => services.platform = p) s log t)
    (hStarted : ∀ m ∈ log, m.happening = .wrote (.stageStarted runId Stage.find.name) →
      ∀ finding ∈ m.before.tables.findings, finding.runId ≠ runId)
    (hDone : Stage.find.name ∈ completedOf runId t.tables) : FindingsMatch p runId t.tables := by
  refine ((findingsMilestone runId p).history h hFresh.orderly ?_ ⟨hFresh.provenanceClosed, ?_⟩
    hStarted).2 hDone
  · simp [hFresh.completedOf]
  · exact fun row _ s hs _ hRun => absurd hRun (hFresh.statements s hs)

/-! ## A run with one verified statement -/

/-- A run which is killed after each of its first seven checkpoints. -/
def findingsCuts : List Nat := [22, 14, 24, 16, 28, 29, 16]

theorem findings_match_served :
    FindingsMatch ({} : Served).platform ⟨1⟩ (({} : Served).runs findingsCuts).2.tables := by
  have hRun : Stage.find.name ∈ completedOf ⟨1⟩ (({} : Served).runs findingsCuts).2.tables ∧
      ∀ m ∈ (({} : Served).runs findingsCuts).1, startedStage ⟨1⟩ m = some Stage.find.name →
        ∀ finding ∈ m.before.tables.findings, finding.runId ≠ ⟨1⟩ := by
    decide +kernel
  exact findings_match (World.submitted_fresh 1) (({} : Served).runs_history findingsCuts)
    (fun m hm hEvent => hRun.2 m hm (startedStage_of hEvent)) hRun.1

theorem FindingsMatch.unique {p : Platform} {runId : Uuid} {t : Tables}
    (h : FindingsMatch p runId t) {f g : Finding} (hf : f ∈ t.findings) (hg : g ∈ t.findings)
    (hRun : f.runId = runId) (hRun' : g.runId = runId) (hTags : f.domainTags = g.domainTags) :
    f = g := by
  obtain ⟨s, domain, hs, hDomain, hf'⟩ := h.only f hf hRun
  obtain ⟨_, -, hOnly⟩ := h.each s hs domain hDomain
  exact (hOnly f ⟨hf, hRun, hf'⟩).trans (hOnly g ⟨hg, hRun', hTags ▸ hf'⟩).symm

/-- A run has no two findings for one domain, if its findings match. -/
theorem FindingsMatch.not_twice {p : Platform} {runId : Uuid} {w : World} {tags : List Text}
    (h : FindingsMatch p runId w.tables) :
    w.tables.findings.map (fun f => (f.runId, f.domainTags)) ≠ List.replicate 2 (runId, tags) := by
  intro hBoth
  have hKey : Keyed Finding.id w.tables.findings := w.db.valid.findingsKey
  obtain ⟨f, g, hFindings⟩ := List.length_eq_two.mp
    ((List.length_map _).symm.trans (congrArg List.length hBoth))
  simp only [hFindings, List.map_cons, List.map_nil, List.replicate, List.cons.injEq,
    Prod.mk.injEq, and_true] at hBoth
  obtain ⟨⟨hRunF, hTagsF⟩, hRunG, hTagsG⟩ := hBoth
  have hSame := h.unique (by simp [hFindings]) (by simp [hFindings]) hRunF hRunG
    (hTagsF.trans hTagsG.symm)
  simp [hFindings, hSame, Keyed] at hKey

/-- The find stage is killed after it has committed the finding of the only domain, and goes on. -/
def findingsTwice : List Nat := [22, 14, 24, 16, 28, 29, 13, 16]

theorem findingsTwice_facts :
    Stage.find.name ∈ completedOf ⟨1⟩ (({} : Served).runs findingsTwice).2.tables ∧
      (({} : Served).runs findingsTwice).2.tables.findings.map (fun f => (f.runId, f.domainTags)) =
        List.replicate 2 (⟨1⟩, ["a.org".toList]) := by
  decide +kernel

/-- The run has two findings for the domain. -/
theorem findings_match_fails :
    ∃ log t, HistoryWhere (flowJob ⟨1⟩)
        (fun services _ => services.platform = ({} : Served).platform) (World.submitted 1) log t ∧
      Stage.find.name ∈ completedOf ⟨1⟩ t.tables ∧
      ¬ FindingsMatch ({} : Served).platform ⟨1⟩ t.tables := by
  obtain ⟨hDone, hBoth⟩ := findingsTwice_facts
  exact ⟨_, _, ({} : Served).runs_history findingsTwice, hDone, fun h => h.not_twice hBoth⟩

end Ecrke
