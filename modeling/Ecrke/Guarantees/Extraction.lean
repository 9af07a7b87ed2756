import Ecrke.Pipeline.FlowLaws
import Ecrke.Services.Bookkeeping
import Ecrke.Session

/-!
# Passages which are extracted again

A resumed extract stage passes over a passage when the run has a statement with the identifier and
the text of the passage.  The text of a statement is what the model has written, so the passage is
passed over only where the model has repeated it word for word.

* `Extracted`, `Unrepeated` -- a passage with statements of the run; a step which calls the
  extractor on no such passage.
* `Quoted` -- each of these passages has a statement with its own text.
* `runExtract_unrepeated_iff` -- one execution of the stage.
* `extract_once` -- every history whose extract stages start from quoted passages.
-/

namespace Ecrke

open Durable

/-- The passages which the extract stage reads. -/
def readable (runId : Uuid) (t : Tables) : List Passage :=
  t.passages.filter fun p => p.sourceId ∈
    (t.sources.filter fun s => s.runId = runId && s.status = .normalized).map Source.id

/-- Statements of the run have been persisted from the passage. -/
def Extracted (runId passageId : Uuid) (t : Tables) : Prop :=
  ∃ statement ∈ t.statements, statement.runId = runId ∧ statement.passageId = passageId

/-- The extractor is called on no passage from which the run has statements. -/
def Unrepeated (runId : Uuid) (m : Moment Vocabulary) : Prop :=
  ∀ passageId, m.happening = .wrote (.extractorCalled runId passageId) →
    ¬ Extracted runId passageId m.before.tables

/-- A passage from which the run has statements has one with its own text. -/
def Quoted (runId : Uuid) (t : Tables) : Prop :=
  ∀ passage ∈ readable runId t, Extracted runId passage.id t →
    (passage.id, passage.text) ∈ extractedKeys runId t

theorem Unrepeated.of_uncalled {runId : Uuid} {m : Moment Vocabulary} (h : Uncalled m.happening) :
    Unrepeated runId m :=
  fun _ hCalled => absurd hCalled (h _ _)

theorem Unrepeated.of_quiet {runId : Uuid} (m : Moment Vocabulary) (h : Quiet m) :
    Unrepeated runId m :=
  .of_uncalled fun _ _ => h.2 _

instance (runId passageId : Uuid) (t : Tables) : Decidable (Extracted runId passageId t) :=
  inferInstanceAs (Decidable (∃ statement ∈ t.statements, _ ∧ _))

instance (runId : Uuid) (t : Tables) : Decidable (Quoted runId t) :=
  inferInstanceAs (Decidable (∀ passage ∈ readable runId t, _ → _))

/-! ## One call of the extractor -/

/-- The statements which are new are taken from one passage. -/
def AddsFrom (passageId : Uuid) (t t' : Tables) : Prop :=
  ∃ rows, t'.statements = t.statements ++ rows ∧ ∀ row ∈ rows, row.passageId = passageId

theorem AddsFrom.refl (passageId : Uuid) (t : Tables) : AddsFrom passageId t t :=
  ⟨[], by simp, by simp⟩

theorem AddsFrom.trans {passageId : Uuid} {t t' t'' : Tables} (h : AddsFrom passageId t t')
    (h' : AddsFrom passageId t' t'') : AddsFrom passageId t t'' := by
  obtain ⟨rows, hRows, hFrom⟩ := h
  obtain ⟨rows', hRows', hFrom'⟩ := h'
  refine ⟨rows ++ rows', by rw [hRows', hRows, List.append_assoc], fun row hRow => ?_⟩
  rcases List.mem_append.mp hRow with hOld | hNew
  · exact hFrom row hOld
  · exact hFrom' row hNew

/-- A passage other than that one is extracted if and only if it was. -/
theorem AddsFrom.not_extracted {runId passageId other : Uuid} {t t' : Tables}
    (h : AddsFrom passageId t t') (hOther : other ≠ passageId)
    (hNew : ¬ Extracted runId other t) : ¬ Extracted runId other t' := by
  obtain ⟨rows, hRows, hFrom⟩ := h
  rintro ⟨statement, hMem, hRun, hPassage⟩
  rw [hRows] at hMem
  rcases List.mem_append.mp hMem with hOld | hAdded
  · exact hNew ⟨statement, hOld, hRun, hPassage⟩
  · exact hOther (hPassage.symm.trans (hFrom statement hAdded))

/-- A step after the call of the extractor on a passage. -/
def AfterCall (passageId : Uuid) (m : Moment Vocabulary) : Prop :=
  Uncalled m.happening ∧ AddsFrom passageId m.before.tables m.after.tables

theorem AfterCall.still {passageId : Uuid} {s : World} {happening : Happening Vocabulary}
    (h : Uncalled happening) : AfterCall passageId ⟨s, happening, s⟩ :=
  ⟨h, .refl _ _⟩

theorem AfterCall.of_book {passageId : Uuid} (m : Moment Vocabulary) (h : Bookkeeping m) :
    AfterCall passageId m := by
  obtain ⟨runs, kvCache, hTables⟩ := h.tables
  refine ⟨fun _ _ => h.noLine _, [], ?_, by simp⟩
  rw [hTables, List.append_nil]

theorem draftStatements_returns (u : Unicode) (passage : Passage) (runId : Uuid)
    (items : List ExtractedStatement) :
    Returns (fun rows : List Statement => ∀ row ∈ rows, row.passageId = passage.id)
      (draftStatements u passage runId items) := by
  refine Returns.mapM fun item _ => ?_
  exact returns_bind fun id => returns_done rfl

/-- The extractor marks its call, and then adds statements of its passage only. -/
theorem extract_afterCall (gateway : LLMGateway) (hHooks : gateway.hooks = []) (passage : Passage)
    (runId : Uuid) : ∃ rest, extract gateway passage runId =
      (emit (.extractorCalled runId passage.id)).bind (fun _ => rest) ∧
        Keeps (AfterCall passage.id) rest := by
  refine ⟨_, rfl, ?_⟩
  have hQuery (question : Query) : Keeps (AfterCall passage.id)
      (Prog.query (S := Vocabulary) question : Action (Answer question)) :=
    keeps_query fun answer _ => .still (uncalled_asked question answer)
  simp only [raiseError_bind]
  refine keeps_ite (fun _ => keeps_raise _) fun _ => ?_
  refine keeps_bind (keeps_completeModel (fun _ _ _ _ _ => .still (uncalled_asked _ _))
    (by simp [hHooks]) AfterCall.of_book _ _) fun _ => ?_
  refine keeps_ite (fun _ => keeps_done _) fun _ => ?_
  refine (draftStatements_returns _ passage runId _).keeps_bind
    (keeps_mapM fun _ _ => keeps_bind (hQuery _) fun _ => keeps_done _) fun rows hRows => ?_
  refine keeps_bind (keeps_mapM fun _ _ => keeps_bind (hQuery _) fun _ =>
    keeps_bind (hQuery _) fun _ => keeps_done _) fun links => ?_
  refine keeps_bind (keeps_commitWrites (fun _ => .still uncalled_refused) ?_) fun _ =>
    keeps_done _
  intro s t hTables _ _
  refine ⟨uncalled_moved, rows, ?_, hRows⟩
  show t.tables.statements = s.tables.statements ++ rows
  rw [hTables, Tables.after_append, Tables.after_insertStatements,
    Tables.after_insertEvidenceLinks]

/-- A call of the extractor on a passage without statements. -/
theorem extract_unrepeated {runId : Uuid} {s : World} (gateway : LLMGateway)
    (hHooks : gateway.hooks = []) (passage : Passage)
    (hNew : ¬ Extracted runId passage.id s.tables) :
    Alone (Unrepeated runId) (fun _ t => AddsFrom passage.id s.tables t.tables)
      (extract gateway passage runId) s := by
  obtain ⟨rest, hExtract, hRest⟩ := extract_afterCall gateway hHooks passage runId
  rw [hExtract]
  refine Alone.bind (fun _ t => t = s) (Alone.log ?_ rfl) ?_ ?_
  · rintro passageId ⟨⟩
    exact hNew
  · rintro _ t rfl
    exact Alone.of_keeps (S := Vocabulary)
      (T := fun s t : World => AddsFrom passage.id s.tables t.tables) (fun _ => .refl _ _)
      (fun _ _ _ h h' => h.trans h') (fun _ hm => hm.2) hRest
      (fun _ hm => .of_uncalled hm.1) fun _ _ h => h
  · rintro _ t rfl
    exact .refl _ _

/-! ## One execution of the stage -/

section Stage

variable {s : World}

/-- What the stage may still call the extractor on: different passages, and those which the keys of
the run do not pass over have no statements. -/
structure Remaining (runId : Uuid) (existing : List (Uuid × Text)) (entries : List (Passage × Nat))
    (t : Tables) : Prop where
  distinct : (entries.map fun entry => entry.1.id).Nodup
  fresh : ∀ entry ∈ entries, (entry.1.id, entry.1.text) ∉ existing →
    ¬ Extracted runId entry.1.id t

/-- What is left after a passage. -/
theorem Remaining.next {runId : Uuid} {existing : List (Uuid × Text)} {entry : Passage × Nat}
    {rest : List (Passage × Nat)} {t t' : Tables}
    (h : Remaining runId existing (entry :: rest) t) (hAdds : AddsFrom entry.1.id t t') :
    Remaining runId existing rest t' := by
  obtain ⟨hHead, hRest⟩ := List.nodup_cons.mp h.distinct
  refine ⟨hRest, fun other hOther hKey => ?_⟩
  have hNe : other.1.id ≠ entry.1.id := by
    intro hEq
    exact hHead (List.mem_map.mpr ⟨other, hOther, hEq⟩)
  exact hAdds.not_extracted hNe (h.fresh other (by simp [hOther]) hKey)

theorem extractPassage_unrepeated (ctx : PipelineContext) (existing : List (Uuid × Text))
    (count : Nat) (entry : Passage × Nat)
    (hFresh : (entry.1.id, entry.1.text) ∉ existing →
      ¬ Extracted ctx.runId entry.1.id s.tables) :
    Alone (Unrepeated ctx.runId) (onOk fun _ t => AddsFrom entry.1.id s.tables t.tables)
      (extractPassage ctx existing count entry) s := by
  have hRest (t : World) (ht : t.db = s.db) : Alone (Unrepeated ctx.runId)
      (onOk fun _ t => AddsFrom entry.1.id s.tables t.tables)
      (if (entry.1.id, entry.1.text) ∈ existing then pure count
        else do
          let statements ← extract ctx.services.gateway entry.1 ctx.runId
          pure (count + statements.length) : Action Nat) t := by
    have hTables : t.tables = s.tables := congrArg Database.tables ht
    refine Alone.ite (fun _ => Alone.done ?_) fun hKey => ?_
    · show AddsFrom entry.1.id s.tables t.tables
      rw [hTables]
      exact .refl _ _
    · refine Alone.bind _ (extract_unrepeated _ rfl _ ?_) ?_ fun _ _ _ => trivial
      · rw [hTables]
        exact hFresh hKey
      · intro statements u hAdds
        rw [hTables] at hAdds
        exact Alone.done hAdds
  refine Alone.ite (fun _ => ?_) fun _ => hRest s rfl
  exact Alone.bind _ (Alone.quietDb Unrepeated.of_quiet (quiet_sleep _))
    (fun _ t ht => hRest t ht) fun _ _ _ => trivial

/-- Started where every extracted passage is quoted, the stage repeats no passage. -/
theorem runExtract_unrepeated (ctx : PipelineContext) (hQuoted : Quoted ctx.runId s.tables) :
    Alone (Unrepeated ctx.runId) anyEnd (runExtract ctx) s := by
  suffices hEnd : Alone (Unrepeated ctx.runId) (onOk fun _ _ => True) (runExtract ctx) s from
    hEnd.post fun _ _ _ => trivial
  refine Alone.bind_ok (fun ids t => t = s ∧ ids = (s.tables.sources.filter fun source =>
    source.runId = ctx.runId && source.status = .normalized).map Source.id)
    (Alone.selectTables Unrepeated.of_quiet ⟨rfl, rfl⟩ fun _ _ => trivial) ?_
  rintro ids t ⟨rfl, rfl⟩
  refine Alone.ite (fun _ => Alone.done trivial) fun _ => ?_
  refine Alone.bind_ok (fun rows u => u = t ∧ rows.Perm (readable ctx.runId t.tables))
    (Alone.selectRows Unrepeated.of_quiet (fun rows hRows => ⟨rfl, hRows⟩) fun _ _ => trivial) ?_
  rintro rows u ⟨rfl, hRows⟩
  refine Alone.bind_ok (fun keys v => v = u ∧ keys = extractedKeys ctx.runId u.tables)
    (Alone.selectTables Unrepeated.of_quiet ⟨rfl, rfl⟩ fun _ _ => trivial) ?_
  rintro keys v ⟨rfl, rfl⟩
  refine Alone.bind_ok _ (Alone.foldlM_ok (fun (entries : List (Passage × Nat)) (w : World) =>
    Remaining ctx.runId (extractedKeys ctx.runId v.tables) entries w.tables) ?_ _ ?_)
    fun _ _ _ => Alone.done trivial
  · intro entry rest count w hRemaining
    refine (extractPassage_unrepeated ctx _ count entry
      (hRemaining.fresh entry (by simp))).post fun r w' hAdds => ?_
    cases r with
    | error error => trivial
    | ok count' => exact hRemaining.next hAdds
  · have hMem {passage : Passage} (h : passage ∈ rows.take maxExtractPassages) :
        passage ∈ readable ctx.runId v.tables := hRows.mem_iff.mp (List.mem_of_mem_take h)
    constructor
    · have hAll : (v.tables.passages.map Passage.id).Nodup := v.db.valid.passagesKey
      have hRead : (rows.map Passage.id).Nodup :=
        (hRows.map Passage.id).nodup_iff.mpr (hAll.sublist (List.filter_sublist.map _))
      have hPlaces : ((rows.take maxExtractPassages).zipIdx.map fun entry => entry.1.id) =
          (rows.take maxExtractPassages).map Passage.id :=
        calc _ = ((rows.take maxExtractPassages).zipIdx.map Prod.fst).map Passage.id :=
              List.map_map.symm
          _ = _ := by rw [List.zipIdx_map_fst]
      rw [hPlaces]
      exact hRead.sublist ((List.take_sublist _ _).map _)
    · rintro ⟨passage, index⟩ hEntry hKey hExtracted
      exact hKey (hQuoted passage (hMem (List.fst_mem_of_mem_zipIdx hEntry)) hExtracted)

/-- The stage may call the extractor on any passage of the run which the keys do not pass over. -/
theorem runExtract_calls (ctx : PipelineContext) {passage : Passage}
    (hRead : passage ∈ readable ctx.runId s.tables)
    (hKey : (passage.id, passage.text) ∉ extractedKeys ctx.runId s.tables) :
    Reaches (runExtract ctx) s ⟨s, .wrote (.extractorCalled ctx.runId passage.id), s⟩ := by
  have hSource := (List.mem_filter.mp hRead).2
  have hSome : ¬ ((s.tables.sources.filter fun source =>
      source.runId = ctx.runId && source.status = .normalized).map Source.id).isEmpty = true := by
    intro hEmpty
    rw [List.isEmpty_iff.mp hEmpty] at hSource
    simp at hSource
  -- The query may return that passage in front of the others.
  obtain ⟨first, rest, hRows⟩ := List.append_of_mem hRead
  have hPerm : (passage :: (first ++ rest)).Perm (readable ctx.runId s.tables) := by
    rw [hRows]
    exact List.perm_middle.symm
  refine Reaches.after (yields_selectTables _) ?_
  dsimp only
  rw [if_neg hSome]
  refine Reaches.after (yields_selectRows hPerm) ?_
  obtain ⟨later, hLater⟩ : ∃ later, ((passage :: (first ++ rest)).take maxExtractPassages).zipIdx =
      (passage, 0) :: later := ⟨_, rfl⟩
  refine Reaches.after (yields_selectTables _) (Reaches.front ?_ _)
  rw [hLater, List.foldlM_cons]
  refine Reaches.front ?_ _
  dsimp only [extractPassage]
  rw [if_neg (lt_irrefl 0), if_neg hKey]
  obtain ⟨last, hExtract, -⟩ := extract_afterCall ctx.services.gateway rfl passage ctx.runId
  rw [hExtract]
  exact ((reaches_emit _).front _).front _

/-- Exactly where every extracted passage is quoted, no execution of the stage repeats one. -/
theorem runExtract_unrepeated_iff (ctx : PipelineContext) :
    (∀ log left t, Exec (runExtract ctx) s log left t → ∀ m ∈ log, Unrepeated ctx.runId m) ↔
      Quoted ctx.runId s.tables := by
  constructor
  · intro hAll passage hRead hExtracted
    by_contra hKey
    obtain ⟨log, left, t, hExec, hMem⟩ := runExtract_calls ctx hRead hKey
    exact hAll log left t hExec _ hMem passage.id rfl hExtracted
  · intro hQuoted log left t hExec
    exact ((runExtract_unrepeated ctx hQuoted).exec hExec).1

end Stage

/-! ## Histories -/

/-- No passage is extracted twice, by a run whose extract stages start from quoted passages. -/
def extractionLaw (runId : Uuid) (p : Platform) : FlowLaw runId p where
  Holds _ log := ∀ m ∈ log, Unrepeated runId m
  May stage w := stage = .extract → Quoted runId w.tables
  Done _ _ _ _ := True
  control := by
    intro l m hControl hBefore m' hMem
    rcases List.mem_append.mp hMem with hOld | hNew
    · exact hBefore m' hOld
    · rw [List.mem_singleton.mp hNew]
      exact .of_uncalled hControl.uncalled
  still _ _ _ _ _ _ := trivial
  task := by
    intro stage services t l hServices hReady hMay hBefore
    have hSnoc {m : Moment Vocabulary} {l : Log Vocabulary} (hm : Unrepeated runId m)
        (hOld : ∀ m ∈ l, Unrepeated runId m) : ∀ m' ∈ l ++ [m], Unrepeated runId m' := by
      intro m' hMem
      rcases List.mem_append.mp hMem with hIn | hNew
      · exact hOld m' hIn
      · rwa [List.mem_singleton.mp hNew]
    by_cases hStage : stage = .extract
    · subst hStage
      exact wp_of_alone (runExtract_unrepeated ⟨runId, services⟩ (hMay rfl))
        (fun _ _ _ hm hOld => hSnoc hm hOld) fun _ _ _ _ _ _ _ => trivial
    · have hTask (l : Log Vocabulary) (m : Moment Vocabulary) (hTask : TaskMoment runId stage m)
          (hOld : ∀ m' ∈ l, Unrepeated runId m') : ∀ m' ∈ l ++ [m], Unrepeated runId m' := by
        refine hSnoc (fun passageId hCalled => ?_) hOld
        exact absurd (hTask.2 _ hCalled).1 hStage
      exact wp_weaken (wp_of_given hTask _ t l) (fun _ h => h.1) (fun _ _ _ h => h)
        fun _ _ _ _ _ _ _ => trivial
  saved := by
    intro stage result id w v l _ hBefore _ _ _ m hMem
    rcases List.mem_append.mp hMem with hOld | hNew
    · exact hBefore m hOld
    · rw [List.mem_singleton.mp hNew]
      exact .of_uncalled uncalled_moved

/-- As long as the extract stage starts from quoted passages, the extractor is called on no passage
from which the run has statements. -/
theorem extract_once {runId : Uuid} {p : Platform} {s t : World} {log : Log Vocabulary}
    (hFresh : FreshRun runId s.tables)
    (h : HistoryWhere (flowJob runId) (fun services _ => services.platform = p) s log t)
    (hQuoted : ∀ m ∈ log, m.happening = .wrote (.stageStarted runId Stage.extract.name) →
      Quoted runId m.before.tables) :
    ∀ m ∈ log, Unrepeated runId m := by
  refine (extractionLaw runId p).history h hFresh.orderly (by rintro _ ⟨⟩) fun m hm => ?_
  rintro stage hEvent rfl
  exact hQuoted m hm hEvent

/-! ## A resumed run -/

/-- The run is killed after the statements of its passage have been committed, before the checkpoint
of the stage. -/
def extractCuts : List Nat := [22, 14, 24, 16, 25, 12]

/-- The extract stage does not start, or it starts from quoted passages. -/
def startsQuoted (m : Moment Vocabulary) : Bool :=
  decide (startedStage ⟨1⟩ m = some Stage.extract.name → Quoted ⟨1⟩ m.before.tables)

/-- The extractor is called. -/
def callsExtractor (m : Moment Vocabulary) : Bool :=
  match m.happening with
  | .wrote (.extractorCalled _ _) => true
  | _ => false

theorem extractCuts_facts :
    (({ } : Served).runs extractCuts).1.any callsExtractor = true ∧
      (({ } : Served).runs extractCuts).1.all startsQuoted = true := by
  decide +kernel

theorem extract_once_served :
    (({ } : Served).runs extractCuts).1.any callsExtractor = true ∧
      ∀ m ∈ (({ } : Served).runs extractCuts).1, Unrepeated ⟨1⟩ m := by
  obtain ⟨hCalls, hQuoted⟩ := extractCuts_facts
  refine ⟨hCalls, ?_⟩
  refine extract_once (World.submitted_fresh 1) (Served.runs_history _ _) fun m hm hEvent => ?_
  exact of_decide_eq_true (List.all_eq_true.mp hQuoted m hm) (startedStage_of hEvent)

/-- A run whose model writes a shorter statement than the passage. -/
def Served.reworded : Served where
  reply := fun _ => "a b".toList

/-- The extractor is called on a passage from which the run has statements. -/
def repeats (m : Moment Vocabulary) : Bool :=
  match m.happening with
  | .wrote (.extractorCalled runId passageId) =>
      runId = ⟨1⟩ && Extracted ⟨1⟩ passageId m.before.tables
  | _ => false

theorem not_unrepeated {m : Moment Vocabulary} (h : repeats m = true) : ¬ Unrepeated ⟨1⟩ m := by
  intro hUnrepeated
  unfold repeats at h
  split at h
  · rename_i runId passageId hCalled
    simp only [Bool.and_eq_true, decide_eq_true_eq] at h
    obtain ⟨rfl, hExtracted⟩ := h
    exact hUnrepeated passageId hCalled hExtracted
  · cases h

theorem reworded_repeats : (Served.reworded.runs extractCuts).1.any repeats = true := by
  decide +kernel

/-- The resumed stage extracts the passage a second time. -/
theorem extract_twice :
    ∃ (p : Platform) (s t : World) (log : Log Vocabulary), FreshRun ⟨1⟩ s.tables ∧
      HistoryWhere (flowJob ⟨1⟩) (fun services _ => services.platform = p) s log t ∧
        ∃ m ∈ log, ¬ Unrepeated ⟨1⟩ m := by
  obtain ⟨m, hMem, hRepeats⟩ := List.any_eq_true.mp reworded_repeats
  exact ⟨_, _, _, _, World.submitted_fresh 1, Served.runs_history _ _, m, hMem,
    not_unrepeated hRepeats⟩

end Ecrke
