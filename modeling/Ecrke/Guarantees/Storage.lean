import Ecrke.Pipeline.Ingest
import Mathlib.Data.List.Infix

/-!
# What is stored of a source

The passages of a source and its status are one commit, so a source either has none of them or all.
All of them together are the normalized text of its content.

* `PassagesOf` -- the passages of a text.
* `StoredRight`, `StoreCorrect` -- what a source owes to its status.
* `store_correct` -- it is so at any time of a run.
* `HoldsPhrase` -- a text has a phrase of the content filter.
* `passages_filtered` -- what the filter gives for the passages, which it does not look at.
-/

namespace Ecrke

open Durable

/-! ## The passages of a text -/

/-- Rows which are numbered from zero, each of them a substring of a text, and all together the
text. -/
structure PassagesOf (text : Text) (rows : List Passage) : Prop where
  seq : rows.map Passage.seq = List.range rows.length
  slices : ∀ row ∈ rows, ∃ start end_, row.startChar = some start ∧ row.endChar = some end_ ∧
    row.text = slice text start end_
  joined : (rows.map Passage.text).flatten = text

/-- Lists which agree item by item in what is read off them. -/
theorem map_eq_of_forall₂ {α β γ : Type} {f : α → γ} {g : β → γ} {xs : List α} {ys : List β}
    (h : List.Forall₂ (fun x y => g y = f x) xs ys) : ys.map g = xs.map f := by
  induction h with
  | nil => rfl
  | cons hHead _ ih => rw [List.map_cons, List.map_cons, hHead, ih]

namespace ChunksOf

variable {sourceId : Uuid} {chunks : List Chunk} {rows : List Passage}

theorem source (h : ChunksOf sourceId chunks rows) : ∀ row ∈ rows, row.sourceId = sourceId := by
  intro row hRow
  obtain ⟨i, hi, rfl⟩ := List.getElem_of_mem hRow
  exact (h.get (h.length_eq ▸ hi) hi).1

theorem texts (h : ChunksOf sourceId chunks rows) :
    rows.map Passage.text = chunks.map Chunk.text := by
  have hTexts : rows.map Passage.text = chunks.zipIdx.map fun entry => entry.1.text :=
    map_eq_of_forall₂ (h.imp fun _ _ hRow => hRow.2.2.1)
  have hMap : (chunks.zipIdx.map fun entry => entry.1.text) =
      (chunks.zipIdx.map Prod.fst).map Chunk.text := by rw [List.map_map]; rfl
  rw [hTexts, hMap, List.zipIdx_map_fst]

theorem seqs (h : ChunksOf sourceId chunks rows) :
    rows.map Passage.seq = List.range rows.length := by
  have hSeqs : rows.map Passage.seq = chunks.zipIdx.map Prod.snd :=
    map_eq_of_forall₂ (h.imp fun _ _ hRow => hRow.2.1)
  have hLength : chunks.length = rows.length := by
    have hZip := h.length_eq
    rwa [List.length_zipIdx] at hZip
  rw [hSeqs, List.zipIdx_map_snd, hLength, List.range_eq_range']

/-- The rows of the chunks of a text are the passages of the text. -/
theorem passagesOf {text : Text} (h : ChunksOf sourceId (chunkPassages text) rows) :
    PassagesOf text rows := by
  have hTiles := chunkPassages_tiles text chunkMinChars chunkMaxChars
  refine ⟨h.seqs, fun row hRow => ?_, ?_⟩
  · obtain ⟨i, hi, rfl⟩ := List.getElem_of_mem hRow
    have hi' : i < (chunkPassages text).zipIdx.length := h.length_eq ▸ hi
    obtain ⟨-, -, hText, hFrom, hTo⟩ := h.get hi' hi
    have hMem : ((chunkPassages text).zipIdx.get ⟨i, hi'⟩).1 ∈ chunkPassages text :=
      List.fst_mem_of_mem_zipIdx (List.get_mem _ _)
    exact ⟨_, _, hFrom, hTo, hText.trans (hTiles.slice _ hMem)⟩
  · rw [h.texts, hTiles.join, slice_all]

end ChunksOf

/-! ## Sources and their passages -/

/-- The passages of a source. -/
def passagesOf (source : Source) (t : Tables) : List Passage :=
  t.passages.filter fun row => row.sourceId = source.id

/-- What a source owes to its status: a normalized source has the passages of its normalized
content, any other one has none, and a fetched one can be normalized: its type is supported and its
content is there. -/
structure StoredRight (p : Platform) (runId : Uuid) (w : World) (source : Source) : Prop where
  normalized : source.status = .normalized → ∃ id content text,
    source.rawRef = some (sourceRef runId id) ∧
    BlobStore.lookup (sourceRef runId id) w.blobs = some content ∧
    normalize p source.sourceType content = .ok text ∧
    PassagesOf text (passagesOf source w.tables)
  others : source.status ≠ .normalized → passagesOf source w.tables = []
  fetched : source.status = .fetched → source.sourceType ∈ supportedTypes ∧
    HasBlob runId source w

/-- Every source of a run has what its status asks for. -/
def StoreCorrect (p : Platform) (runId : Uuid) (w : World) : Prop :=
  ∀ source ∈ w.tables.sources, source.runId = runId → StoredRight p runId w source

section Steps

variable {p : Platform} {runId : Uuid} {m : Moment Vocabulary} {source : Source}

theorem HasBlob.grow (h : HasBlob runId source m.before) (hGrow : BlobsGrow m) :
    HasBlob runId source m.after := by
  obtain ⟨id, hRef, hSome⟩ := h
  obtain ⟨content, hContent⟩ := Option.isSome_iff_exists.mp hSome
  exact ⟨id, hRef, Option.isSome_iff_exists.mpr ⟨content, hGrow _ _ hContent⟩⟩

/-- A source whose passages stay as they are. -/
theorem StoredRight.grow (h : StoredRight p runId m.before source) (hGrow : BlobsGrow m)
    (hPassages : passagesOf source m.after.tables = passagesOf source m.before.tables) :
    StoredRight p runId m.after source := by
  refine ⟨fun hStatus => ?_, fun hStatus => ?_, fun hStatus => ?_⟩
  · obtain ⟨id, content, text, hRef, hContent, hText, hRows⟩ := h.normalized hStatus
    exact ⟨id, content, text, hRef, hGrow _ _ hContent, hText, hPassages ▸ hRows⟩
  · rw [hPassages]
    exact h.others hStatus
  · obtain ⟨hType, hBlob⟩ := h.fetched hStatus
    exact ⟨hType, hBlob.grow hGrow⟩

/-- A new source has no passages. -/
theorem passagesOf_new {t t' : Tables} (hValid : t.Valid) (hValid' : t'.Valid)
    (hSources : t'.sources = t.sources ++ [source]) (hPassages : t'.passages = t.passages) :
    passagesOf source t' = [] := by
  rw [passagesOf, List.filter_eq_nil_iff]
  intro row hRow hSame
  rw [hPassages] at hRow
  obtain ⟨other, hOther, hId⟩ := hValid.passagesSource row hRow
  have hKey := hValid'.sourcesKey
  rw [hSources] at hKey
  have hNe := hKey.append_ne hOther (List.mem_singleton_self source)
  exact hNe (hId.trans (by simpa using hSame))

/-- The step lemma: a step of the run keeps every source right. -/
theorem StoreCorrect.step (hStep : IngestMoment p runId m) (h : StoreCorrect p runId m.before) :
    StoreCorrect p runId m.after := by
  obtain ⟨hIngest, hGrow, -⟩ := hStep
  cases hIngest with
  | aside hSources hPassages =>
      intro source hMem hRun
      rw [hSources] at hMem
      exact (h source hMem hRun).grow hGrow (by rw [passagesOf, passagesOf, hPassages])
  | recorded added hAddedRun hStatus hFetched hSources hPassages =>
      intro source hMem hRun
      rw [hSources, List.mem_append, List.mem_singleton] at hMem
      rcases hMem with hOld | rfl
      · exact (h source hOld hRun).grow hGrow (by rw [passagesOf, passagesOf, hPassages])
      · have hNone : passagesOf source m.after.tables = [] :=
          passagesOf_new m.before.db.valid m.after.db.valid hSources hPassages
        refine ⟨fun hNormalized => absurd hNormalized hStatus, fun _ => hNone, fun hIs => ?_⟩
        obtain ⟨hType, hBlob⟩ := hFetched hIs
        exact ⟨hType, hBlob.grow hGrow⟩
  | stored stored hStored hStoredRun hStatus content text rows hContent hText hRows hSources
      hPassages =>
      have hOf := hRows.source
      intro source hMem hRun
      rw [hSources] at hMem
      rcases mem_modifyRow.mp hMem with ⟨old, hOld, hId, rfl⟩ | ⟨hOld, hNe⟩
      · -- The source which has been stored: it had no passages before.
        obtain rfl : old = stored := m.before.db.valid.sourcesKey.eq hOld hStored hId
        have hRight := h old hStored hStoredRun
        have hNone := hRight.others (by simp [hStatus])
        obtain ⟨-, id, hRef, -⟩ := hRight.fetched hStatus
        rw [hRef, Option.getD_some] at hContent
        have hAll : passagesOf { old with status := .normalized } m.after.tables = rows := by
          rw [passagesOf, hPassages, List.filter_append]
          rw [passagesOf] at hNone
          rw [hNone, List.nil_append, List.filter_eq_self]
          exact fun row hRow => by simpa using hOf row hRow
        have hOwn : PassagesOf text
            (passagesOf { old with status := .normalized } m.after.tables) :=
          hAll ▸ hRows.passagesOf
        exact ⟨fun _ => ⟨_, content, text, hRef, hGrow _ _ hContent, hText, hOwn⟩, by simp,
          by simp⟩
      · refine (h source hOld hRun).grow hGrow ?_
        rw [passagesOf, passagesOf, hPassages]
        refine filter_append_none fun row hRow => ?_
        simpa [hOf row hRow] using Ne.symm hNe

end Steps

/-! ## Whole runs -/

section Runs

variable {runId : Uuid} {p : Platform}

/-- A condition on all the steps of a log, one step later. -/
theorem log_snoc {R : Moment Vocabulary → Prop} {l : Log Vocabulary} {m : Moment Vocabulary}
    (hLog : ∀ m ∈ l, R m) (hm : R m) : ∀ m' ∈ l ++ [m], R m' := by
  intro m' hMem
  rcases List.mem_append.mp hMem with hOld | hNew
  · exact hLog m' hOld
  · rwa [List.mem_singleton.mp hNew]

theorem Control.ingest {m : Moment Vocabulary} (h : Control m) : IngestMoment p runId m := by
  obtain ⟨runs, rows, hTables⟩ := h.tables
  exact ⟨.aside (by rw [hTables]) (by rw [hTables]), .of_kept m h.blobs⟩

/-- The tasks of the other stages write neither sources nor passages. -/
theorem TaskStep.ingestAside {stage : Stage} {w w' : World}
    (h : TaskStep runId w.tables stage w'.tables) (hCollect : stage ≠ .collect)
    (hStore : stage ≠ .store) : Ingest p runId w w' := by
  have hRows : w'.tables.sources = w.tables.sources ∧ w'.tables.passages = w.tables.passages := by
    generalize w.tables = t at h ⊢
    generalize w'.tables = t' at h ⊢
    cases h with
    | metered hMeter => exact ⟨hMeter.frame.sources, hMeter.frame.passages⟩
    | collected => exact absurd rfl hCollect
    | stored => exact absurd rfl hStore
    | _ => exact ⟨rfl, rfl⟩
  exact .aside hRows.1 hRows.2

/-- What holds throughout a run: every source is right, and only steps of the run have been
taken. -/
def ingestLaw (runId : Uuid) (p : Platform) : FlowLaw runId p where
  Holds w log := StoreCorrect p runId w ∧ ∀ m ∈ log, IngestMoment p runId m
  May _ _ := True
  Done _ _ _ _ := True
  control := by
    rintro l m hControl ⟨hCorrect, hLog⟩
    exact ⟨hCorrect.step hControl.ingest, log_snoc hLog hControl.ingest⟩
  still _ _ _ _ _ _ := trivial
  task := by
    rintro stage services t l rfl - - ⟨hCorrect, -⟩
    have hKeep (l : Log Vocabulary) (m : Moment Vocabulary)
        (hm : IngestMoment services.platform runId m)
        (hBefore : StoreCorrect services.platform runId m.before ∧
          ∀ m ∈ l, IngestMoment services.platform runId m) :
        StoreCorrect services.platform runId m.after ∧
          ∀ m' ∈ l ++ [m], IngestMoment services.platform runId m' :=
      ⟨hBefore.1.step hm, log_snoc hBefore.2 hm⟩
    by_cases hCollect : stage = .collect
    · subst hCollect
      exact wp_of_alone (runCollect_ingest ⟨runId, services⟩ rfl) (fun l m _ hm => hKeep l m hm)
        fun _ _ _ _ _ _ _ => trivial
    by_cases hStore : stage = .store
    · subst hStore
      refine wp_of_alone (runStore_ingest ⟨runId, services⟩ rfl ?_) (fun l m _ hm => hKeep l m hm)
        fun _ _ _ _ _ _ _ => trivial
      intro source hMem hRun hStatus row hRow hSame
      have hNone := (hCorrect source hMem hRun).others (by simp [hStatus])
      rw [passagesOf, List.filter_eq_nil_iff] at hNone
      exact hNone row hRow (by simpa using hSame)
    · refine wp_of_alone (stageTasks_adds stage ⟨runId, services⟩ rfl) ?_
        fun _ _ _ _ _ _ _ => trivial
      exact fun l m hTask hm => hKeep l m ⟨hTask.1.1.ingestAside hCollect hStore, hm⟩
  saved := by
    rintro stage result id w v l - ⟨hCorrect, hLog⟩ - hBlobs hTables
    have hStep : IngestMoment p runId ⟨w, .moved, v⟩ :=
      ⟨.aside (by rw [hTables]) (by rw [hTables]), .of_kept _ hBlobs⟩
    exact ⟨hCorrect.step hStep, log_snoc hLog hStep⟩

/-- A run for which nothing has been executed, collected or stored. -/
structure BlankRun (runId : Uuid) (w : World) : Prop where
  fresh : FreshRun runId w.tables
  sources : ∀ source ∈ w.tables.sources, source.runId ≠ runId
  blobs : ∀ id, BlobStore.lookup (sourceRef runId id) w.blobs = none

theorem World.submitted_blank (budget : Usd) : BlankRun ⟨1⟩ (World.submitted budget) :=
  ⟨World.submitted_fresh budget, by rintro source ⟨⟩, fun _ => rfl⟩

theorem ingest_history {s t : World} {log : Log Vocabulary} (hBlank : BlankRun runId s)
    (h : HistoryWhere (flowJob runId) (fun services _ => services.platform = p) s log t) :
    StoreCorrect p runId t ∧ ∀ m ∈ log, IngestMoment p runId m :=
  (ingestLaw runId p).history h hBlank.fresh.orderly
    ⟨fun source hMem hRun => absurd hRun (hBlank.sources source hMem), by simp⟩
    fun _ _ _ _ => trivial

/-- At any time of a run, after any crashes and resumes: the passages of a normalized source are
numbered from zero, substrings of its normalized content and together all of it, and a fetched
source has no passages and a type which can be normalized. -/
theorem store_correct {s t : World} {log : Log Vocabulary} (hBlank : BlankRun runId s)
    (h : HistoryWhere (flowJob runId) (fun services _ => services.platform = p) s log t) :
    StoreCorrect p runId t :=
  (ingest_history hBlank h).1

end Runs

/-! ## The content filter -/

/-- A text contains a phrase of the content filter, whatever its case. -/
def HoldsPhrase (u : Unicode) (text : Text) : Prop :=
  ∃ entry ∈ unsafeTerms, ∃ phrase ∈ entry.2, Text.occursIn phrase (Text.casefold u text)

theorem isUnsafe_iff {u : Unicode} {text : Text} : isUnsafe u text ↔ HoldsPhrase u text := by
  simp [isUnsafe, findUnsafeCategories, HoldsPhrase]

theorem occursIn_iff {needle text : Text} : Text.occursIn needle text ↔ needle <:+: text := by
  have hTails : Text.occursIn needle text ↔ ∃ rest, needle <+: rest ∧ rest <:+ text := by
    simp [Text.occursIn, and_comm]
  rw [hTails, List.infix_iff_prefix_suffix]

/-- A phrase of a text is a phrase of every larger one. -/
theorem HoldsPhrase.larger {u : Unicode} {text larger : Text} (h : HoldsPhrase u text)
    (hInfix : text <:+: larger) : HoldsPhrase u larger := by
  obtain ⟨entry, hEntry, phrase, hPhrase, hOccurs⟩ := h
  obtain ⟨front, back, rfl⟩ := hInfix
  have hFold : Text.casefold u text <:+: Text.casefold u (front ++ text ++ back) := by
    refine ⟨Text.casefold u front, Text.casefold u back, ?_⟩
    rw [Text.casefold, Text.casefold, Text.casefold, Text.casefold, List.flatMap_append,
      List.flatMap_append]
  exact ⟨entry, hEntry, phrase, hPhrase, occursIn_iff.mpr ((occursIn_iff.mp hOccurs).trans hFold)⟩

/-- What is stored under the references of a run has passed the content filter. -/
def BlobsSafe (p : Platform) (runId : Uuid) (w : World) : Prop :=
  ∀ id content, BlobStore.lookup (sourceRef runId id) w.blobs = some content →
    ¬ HoldsPhrase p.unicode (decodeContent content)

theorem BlobsSafe.step {p : Platform} {runId : Uuid} {m : Moment Vocabulary}
    (hStep : IngestMoment p runId m) (h : BlobsSafe p runId m.before) :
    BlobsSafe p runId m.after := by
  intro id content hContent
  rcases hStep.2.2 _ _ hContent with hOld | hSafe
  · exact h id content hOld
  · have hPassed := hSafe ⟨id, rfl⟩
    rw [← isUnsafe_iff, hPassed]
    exact Bool.false_ne_true

/-- At any time of a run, after any crashes and resumes: a passage belongs to a normalized source,
the stored content of the source has no phrase of the content filter, and neither has the passage as
far as it is found in the content. -/
theorem passages_filtered {p : Platform} {runId : Uuid} {s t : World} {log : Log Vocabulary}
    (hBlank : BlankRun runId s)
    (h : HistoryWhere (flowJob runId) (fun services _ => services.platform = p) s log t)
    (row : Passage) (hRow : row ∈ t.tables.passages) (source : Source)
    (hSource : source ∈ t.tables.sources) (hId : row.sourceId = source.id)
    (hRun : source.runId = runId) :
    source.status = .normalized ∧ ∃ ref content text start end_, source.rawRef = some ref ∧
      BlobStore.lookup ref t.blobs = some content ∧
      normalize p source.sourceType content = .ok text ∧ row.text = slice text start end_ ∧
      ¬ HoldsPhrase p.unicode (decodeContent content) ∧
      (row.text <:+: decodeContent content → ¬ HoldsPhrase p.unicode row.text) := by
  obtain ⟨hCorrect, hLog⟩ := ingest_history hBlank h
  have hRight := hCorrect source hSource hRun
  have hMem : row ∈ passagesOf source t.tables := by
    rw [passagesOf, List.mem_filter]
    exact ⟨hRow, by simpa using hId⟩
  have hStatus : source.status = .normalized := by
    by_contra hNot
    rw [hRight.others hNot] at hMem
    exact absurd hMem (List.not_mem_nil)
  obtain ⟨id, content, text, hRef, hContent, hText, hRows⟩ := hRight.normalized hStatus
  obtain ⟨start, end_, -, -, hSlice⟩ := hRows.slices row hMem
  have hSafe : BlobsSafe p runId t := by
    refine (h.linked.invariant (BlobsSafe p runId) (fun m hm hBefore => hBefore.step (hLog m hm))
      ?_).1
    intro other content hOther
    rw [hBlank.blobs] at hOther
    cases hOther
  have hClean := hSafe id content hContent
  exact ⟨hStatus, _, content, text, start, end_, hRef, hContent, hText, hSlice, hClean,
    fun hInfix hPhrase => hClean (hPhrase.larger hInfix)⟩

/-! ## A phrase which normalization puts together -/

/-- A run whose pages have a tab in the middle of a phrase. -/
def Served.pipeBomb : Served where
  page := "pipe\tbomb".toList

/-- The run is killed after the checkpoint of its store stage, and once before. -/
def storeCuts : List Nat := [22, 14, 24, 5, 16]

theorem storeCuts_facts :
    (Served.pipeBomb.runs storeCuts).2.tables.sources.map
        (fun source => (source.runId, source.status)) = [(⟨1⟩, .normalized)] ∧
      ((Served.pipeBomb.runs storeCuts).2.tables.sources.flatMap fun source =>
        (passagesOf source (Served.pipeBomb.runs storeCuts).2.tables).map Passage.text) =
        ["pipe bomb".toList] := by
  decide +kernel

theorem store_correct_pipeBomb :
    StoreCorrect Served.pipeBomb.platform ⟨1⟩ (Served.pipeBomb.runs storeCuts).2 :=
  store_correct (World.submitted_blank 1) (Served.pipeBomb.runs_history storeCuts)

/-- The passage of the run, with the phrase put together. -/
theorem storeCuts_passage :
    ∃ row ∈ (Served.pipeBomb.runs storeCuts).2.tables.passages,
      ∃ source ∈ (Served.pipeBomb.runs storeCuts).2.tables.sources,
        row.sourceId = source.id ∧ source.runId = ⟨1⟩ ∧ row.text = "pipe bomb".toList := by
  obtain ⟨hSources, hTexts⟩ := storeCuts_facts
  have hText := hTexts ▸ List.mem_singleton_self "pipe bomb".toList
  obtain ⟨source, hSource, hOf⟩ := List.mem_flatMap.mp hText
  obtain ⟨row, hRow, hSame⟩ := List.mem_map.mp hOf
  obtain ⟨hRow, hId⟩ := List.mem_filter.mp hRow
  have hRun := List.mem_map_of_mem (f := fun source : Source => (source.runId, source.status)) hSource
  rw [hSources, List.mem_singleton, Prod.mk.injEq] at hRun
  exact ⟨row, hRow, source, hSource, by simpa using hId, hRun.1, hSame⟩

theorem passages_filtered_pipeBomb :
    ∃ row ∈ (Served.pipeBomb.runs storeCuts).2.tables.passages,
      ∃ source ∈ (Served.pipeBomb.runs storeCuts).2.tables.sources,
        source.status = .normalized ∧ row.text = "pipe bomb".toList ∧
        ∃ ref content text start end_, source.rawRef = some ref ∧
          BlobStore.lookup ref (Served.pipeBomb.runs storeCuts).2.blobs = some content ∧
          normalize Served.pipeBomb.platform source.sourceType content = .ok text ∧
          row.text = slice text start end_ ∧
          ¬ HoldsPhrase Served.pipeBomb.platform.unicode (decodeContent content) ∧
          (row.text <:+: decodeContent content →
            ¬ HoldsPhrase Served.pipeBomb.platform.unicode row.text) := by
  obtain ⟨row, hRow, source, hSource, hId, hRun, hText⟩ := storeCuts_passage
  obtain ⟨hStatus, hStored⟩ := passages_filtered (World.submitted_blank 1)
    (Served.pipeBomb.runs_history storeCuts) row hRow source hSource hId hRun
  exact ⟨row, hRow, source, hSource, hStatus, hText, hStored⟩

/-- A run has stored a passage with a phrase of the content filter. -/
theorem passages_filtered_fails :
    ∃ (p : Platform) (s t : World) (log : Log Vocabulary) (row : Passage) (source : Source),
      BlankRun ⟨1⟩ s ∧
        HistoryWhere (flowJob ⟨1⟩) (fun services _ => services.platform = p) s log t ∧
        row ∈ t.tables.passages ∧ source ∈ t.tables.sources ∧ row.sourceId = source.id ∧
        source.runId = ⟨1⟩ ∧ HoldsPhrase p.unicode row.text := by
  obtain ⟨row, hRow, source, hSource, hId, hRun, hText⟩ := storeCuts_passage
  refine ⟨_, _, _, _, row, source, World.submitted_blank 1, Served.pipeBomb.runs_history storeCuts,
    hRow, hSource, hId, hRun, ?_⟩
  rw [hText, ← isUnsafe_iff]
  decide

end Ecrke
