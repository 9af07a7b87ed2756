import Ecrke.Pipeline.Blobs
import Ecrke.Pipeline.FlowLaws
import Ecrke.Services.Tiling

/-!
# Sources, passages and their blobs

What the steps of a run can do to the sources of the run, to the passages and to the blobs behind
them.

* `SafeBlob` -- a blob of a source whose content has passed the content filter.
* `Ingest`, `IngestMoment` -- a source is recorded, or stored with all its passages, or neither.
* `runCollect_ingest`, `runStore_ingest` -- the two stages which take such steps.
-/

namespace Ecrke

open Durable

variable {s : World}

/-! ## Blobs -/

/-- The reference under which the content of a source is stored. -/
def sourceRef (runId id : Uuid) : Text :=
  "runs/".toList ++ runId.str ++ "/sources/".toList ++ id.str

/-- A content under a reference of a source has passed the content filter. -/
def SafeBlob (p : Platform) (runId : Uuid) (ref : Text) (content : Bytes) : Prop :=
  (∃ id, ref = sourceRef runId id) → isUnsafe p.unicode (decodeContent content) = false

/-! ## Passages of a text -/

/-- Rows are the chunks of a list, numbered in their order, as passages of a source. -/
def ChunksOf (sourceId : Uuid) (chunks : List Chunk) (rows : List Passage) : Prop :=
  List.Forall₂ (fun (entry : Chunk × Nat) (row : Passage) => row.sourceId = sourceId ∧
    row.seq = entry.2 ∧ row.text = entry.1.text ∧ row.startChar = some entry.1.startChar ∧
    row.endChar = some entry.1.endChar) chunks.zipIdx rows

/-- The source types which `normalize` supports, the keys of `_NORMALIZERS`. -/
def supportedTypes : List SourceType := [.web, .pdf, .docx, .rtf]

/-- A content type or a suffix stands for a supported type. -/
theorem classifySource_supported (u : Unicode) (contentType uri : Text) :
    classifySource u contentType uri ∈ supportedTypes := by
  unfold classifySource
  dsimp only
  cases hFind : contentTypeMap.find? fun entry =>
      Text.occursIn entry.1 (Text.lower u contentType) with
  | some entry =>
      have hAll : ∀ entry ∈ contentTypeMap, entry.2 ∈ supportedTypes := by decide
      exact hAll entry (List.mem_of_find?_eq_some hFind)
  | none =>
      dsimp only
      split_ifs <;> decide

/-! ## Steps -/

/-- The content of a source is stored under a reference of the run. -/
def HasBlob (runId : Uuid) (source : Source) (w : World) : Prop :=
  ∃ id, source.rawRef = some (sourceRef runId id) ∧
    (BlobStore.lookup (sourceRef runId id) w.blobs).isSome

/-- What one step can do to the sources of a run and to the passages. -/
inductive Ingest (p : Platform) (runId : Uuid) (w w' : World) : Prop where
  | aside (hSources : w'.tables.sources = w.tables.sources)
      (hPassages : w'.tables.passages = w.tables.passages)
  | recorded (source : Source) (hRun : source.runId = runId) (hStatus : source.status ≠ .normalized)
      (hFetched : source.status = .fetched →
        source.sourceType ∈ supportedTypes ∧ HasBlob runId source w)
      (hSources : w'.tables.sources = w.tables.sources ++ [source])
      (hPassages : w'.tables.passages = w.tables.passages)
  | stored (source : Source) (hSource : source ∈ w.tables.sources) (hRun : source.runId = runId)
      (hStatus : source.status = .fetched) (content : Bytes) (text : Text)
      (rows : List Passage)
      (hContent : BlobStore.lookup (source.rawRef.getD []) w.blobs = some content)
      (hText : normalize p source.sourceType content = .ok text)
      (hRows : ChunksOf source.id (chunkPassages text) rows)
      (hSources : w'.tables.sources = modifyRow Source.id source.id
        (fun s => { s with status := .normalized }) w.tables.sources)
      (hPassages : w'.tables.passages = w.tables.passages ++ rows)

/-- A step of a run, as far as sources, passages and blobs go. -/
def IngestMoment (p : Platform) (runId : Uuid) (m : Moment Vocabulary) : Prop :=
  Ingest p runId m.before m.after ∧ BlobsAdd (SafeBlob p runId) m

section Programs

variable {p : Platform} {runId : Uuid}

/-- A quiet step which stores no blob. -/
theorem IngestMoment.of_inert (m : Moment Vocabulary) (h : Quiet m ∧ BlobsKept m) :
    IngestMoment p runId m :=
  ⟨.aside (by rw [World.tables, World.tables, h.1.1]) (by rw [World.tables, World.tables, h.1.1]),
    .of_kept m h.2⟩

/-- A quiet program which stores no blob. -/
theorem Alone.inert {α : Type} {program : Action α} (hQuiet : Keeps Quiet program)
    (hKept : Keeps BlobsKept program) :
    Alone (IngestMoment p runId) (onOk fun _ t => t.db = s.db ∧ t.blobs = s.blobs) program s := by
  refine Alone.of_keeps (S := Vocabulary)
    (T := fun s t : World => t.db = s.db ∧ t.blobs = s.blobs) (fun _ => ⟨rfl, rfl⟩)
    (fun _ _ _ h h' => ⟨h'.1.trans h.1, h'.2.trans h.2⟩) (fun _ hm => ⟨hm.1.1, hm.2⟩)
    (hQuiet.both hKept) IngestMoment.of_inert fun r t ht => ?_
  cases r with
  | error error => trivial
  | ok value => exact ht

/-- A commit of rows, with the blobs as they were. -/
theorem Alone.commitIngest {writes : List Write}
    (hStep : ∀ t : World, t.tables = s.tables.after writes → Ingest p runId s t) :
    Alone (IngestMoment p runId)
      (onOk fun _ t => t.tables = s.tables.after writes ∧ t.blobs = s.blobs)
      (Ecrke.commitWrites writes) s := by
  have hStill {happening : Happening Vocabulary} : IngestMoment p runId ⟨s, happening, s⟩ :=
    ⟨.aside rfl rfl, .of_kept _ rfl⟩
  refine Alone.commit ?_ hStill fun _ _ => trivial
  intro value t hRun
  cases hWrites : s.db.applyAll writes with
  | error error => simp [hWrites] at hRun
  | ok db =>
      simp only [hWrites, Except.ok.injEq] at hRun
      cases hRun
      have hTables := Database.applyAll_ok hWrites
      exact ⟨⟨hStep _ hTables, .of_kept _ rfl⟩, ⟨hTables, rfl⟩, fun _ => trivial⟩

/-! ## Collect -/

theorem recordSource_ingest (ctx : PipelineContext) (outcome : CollectOutcome)
    (hStatus : outcome.status ≠ .normalized)
    (hFetched : outcome.status = .fetched → outcome.sourceType ∈ supportedTypes ∧
      ∃ id, outcome.rawRef = some (sourceRef ctx.runId id) ∧
        (BlobStore.lookup (sourceRef ctx.runId id) s.blobs).isSome) :
    Alone (IngestMoment p ctx.runId) (onOk fun _ t => t.blobs = s.blobs)
      (recordSource ctx outcome) s := by
  refine Alone.bind_ok _ (Alone.inert quiet_uuid4 (kept_query _)) fun id t ht => ?_
  have hKept := BlobsKept.allows ctx.services.platform.unicode
  refine Alone.bind_ok _ (Alone.inert (quiet_auditAppend _ _) (hKept.auditAppend _ _))
    fun audit u hu => ?_
  have hBlobs : u.blobs = s.blobs := hu.2.trans ht.2
  refine (Alone.commitIngest fun v hv => ?_).post fun r v hv => ?_
  · refine .recorded (outcome.source ctx.runId id) rfl hStatus (fun h => ?_) (by rw [hv]; rfl)
      (by rw [hv]; rfl)
    obtain ⟨hType, blob, hRef, hSome⟩ := hFetched h
    exact ⟨hType, blob, hRef, hBlobs ▸ hSome⟩
  · cases r with
    | error error => trivial
    | ok value => exact hv.2.trans hBlobs

/-- The blobs which a loop over addresses has stored by content are there. -/
def SeenStored (runId : Uuid) (state : Collected) (w : World) : Prop :=
  ∀ entry ∈ state.seenHashes, ∃ id, entry.2 = sourceRef runId id ∧
    (BlobStore.lookup (sourceRef runId id) w.blobs).isSome

theorem SeenStored.grow {runId : Uuid} {state state' : Collected} {w w' : World}
    (h : SeenStored runId state w) (hSeen : state'.seenHashes = state.seenHashes)
    (hBlobs : w'.blobs = w.blobs) : SeenStored runId state' w' := by
  intro entry hEntry
  rw [hSeen] at hEntry
  rw [hBlobs]
  exact h entry hEntry

theorem storeContent_ingest (ctx : PipelineContext) (hash : Text) {content : Bytes}
    {state : Collected} (hSafe : isUnsafe p.unicode (decodeContent content) = false)
    (hSeen : SeenStored ctx.runId state s) :
    Alone (IngestMoment p ctx.runId)
      (onOk fun stored t => SeenStored ctx.runId stored.2 t ∧
        ∃ id, stored.1 = sourceRef ctx.runId id ∧
          (BlobStore.lookup (sourceRef ctx.runId id) t.blobs).isSome)
      (storeContent ctx hash content state) s := by
  refine Alone.bind_ok _ (Alone.inert quiet_uuid4 (kept_query _)) fun id t ht => ?_
  have hSeen : SeenStored ctx.runId state t := hSeen.grow rfl ht.2
  dsimp only
  cases hFind : state.seenHashes.find? fun entry => entry.1 = hash with
  | some entry => exact Alone.done ⟨hSeen, hSeen entry (List.mem_of_find?_eq_some hFind)⟩
  | none =>
      -- The store keeps the blobs which are there, and only the new one is added.
      have hPut : Alone (BlobsAdd (SafeBlob p ctx.runId))
          (onOk fun _ u => u.db = t.db ∧ BlobStore.lookup (sourceRef ctx.runId id) u.blobs =
            some ((BlobStore.lookup (sourceRef ctx.runId id) t.blobs).getD content))
          (BlobStore.put (sourceRef ctx.runId id) content) t := put_adds fun _ => hSafe
      have hGrow := hPut.along (T := fun t u : World => ∀ ref,
        (BlobStore.lookup ref t.blobs).isSome → (BlobStore.lookup ref u.blobs).isSome)
        (fun _ _ h => h) (fun _ _ _ h h' ref hRef => h' ref (h ref hRef))
        (fun m hm ref hRef => by
          obtain ⟨content, hContent⟩ := Option.isSome_iff_exists.mp hRef
          exact Option.isSome_iff_exists.mpr ⟨content, hm.1 ref content hContent⟩)
      have hDb : Alone Quiet anyEnd (BlobStore.put (sourceRef ctx.runId id) content) t :=
        Alone.quietly (fun _ h => h) (quiet_put _ _)
      refine Alone.bind_ok (fun _ (u : World) => SeenStored ctx.runId state u ∧
          (BlobStore.lookup (sourceRef ctx.runId id) u.blobs).isSome)
        ((hGrow.both hDb).mono ?_ ?_) fun _ u hu => Alone.done ⟨?_, id, rfl, hu.2⟩
      · exact fun m hm => ⟨.aside (by rw [World.tables, World.tables, hm.2.1])
          (by rw [World.tables, World.tables, hm.2.1]), hm.1⟩
      · rintro (_ | _) u ⟨⟨hStored, hGrow⟩, -⟩
        · trivial
        · refine ⟨fun entry hEntry => ?_, by rw [hStored.2]; rfl⟩
          obtain ⟨other, hRef, hSome⟩ := hSeen entry hEntry
          exact ⟨other, hRef, hGrow _ hSome⟩
      · intro entry hEntry
        rcases List.mem_append.mp hEntry with hOld | hNew
        · exact hu.1 entry hOld
        · rw [List.mem_singleton.mp hNew]
          exact ⟨id, rfl, hu.2⟩

theorem collectUri_ingest (ctx : PipelineContext) (hPlatform : ctx.services.platform = p)
    (uri : Text) {state : Collected} (hSeen : SeenStored ctx.runId state s) :
    Alone (IngestMoment p ctx.runId) (onOk fun state t => SeenStored ctx.runId state t)
      (collectUri ctx uri state) s := by
  subst hPlatform
  -- What is recorded without content.
  have hRecord (outcome : CollectOutcome) (state' : Collected) (t : World)
      (hStatus : outcome.status = .quarantined ∨ outcome.status = .failed)
      (hState : state'.seenHashes = state.seenHashes) (ht : t.blobs = s.blobs) :
      Alone (IngestMoment ctx.services.platform ctx.runId)
        (onOk fun state t => SeenStored ctx.runId state t)
        (do recordSource ctx outcome; pure state') t := by
    have hNot : outcome.status ≠ .normalized ∧ outcome.status ≠ .fetched := by
      rcases hStatus with h | h <;> simp [h]
    refine Alone.bind_ok _ (recordSource_ingest ctx outcome hNot.1 fun h => absurd h hNot.2) ?_
    exact fun _ u hu => Alone.done (hSeen.grow hState (hu.trans ht))
  refine Alone.bind_ok _ (Alone.inert (quiet_ofExcept _) (kept_ofExcept _)) fun refused t ht => ?_
  cases refused with
  | some reason => exact hRecord _ _ _ (.inl rfl) rfl ht.2
  | none =>
      have hKept := BlobsKept.allows ctx.services.platform.unicode
      refine Alone.bind_ok _ (Alone.inert (quiet_tryFetch _ _) (hKept.tryFetch _ _))
        fun answer u hu => ?_
      have hBlobs : u.blobs = s.blobs := hu.2.trans ht.2
      cases answer with
      | error reason => exact hRecord _ _ _ (.inr rfl) rfl hBlobs
      | ok content =>
          refine Alone.ite (fun _ => hRecord _ _ _ (.inl rfl) rfl hBlobs) fun hSafe => ?_
          refine Alone.bind_ok _ (storeContent_ingest ctx _ (by simpa using hSafe)
            (hSeen.grow rfl hBlobs)) ?_
          rintro ⟨ref, state'⟩ v ⟨hSeen, id, rfl, hSome⟩
          refine Alone.bind_ok _ (recordSource_ingest ctx _ (by simp) fun _ =>
            ⟨classifySource_supported _ _ _, id, rfl, hSome⟩) fun _ w hw => ?_
          exact Alone.done (hSeen.grow rfl hw)

/-- One entry of the list of addresses: a string which has no source yet is collected. -/
theorem collectEntry_ingest (ctx : PipelineContext) (hPlatform : ctx.services.platform = p)
    (existing : List Text) (url : Json) {state : Collected}
    (hSeen : SeenStored ctx.runId state s) :
    Alone (IngestMoment p ctx.runId) (onOk fun state t => SeenStored ctx.runId state t)
      (match url with
        | .str uri => if uri ∈ existing then pure state else collectUri ctx uri state
        | _ => raiseError .attributeError "object has no attribute 'startswith'".toList) s := by
  cases url with
  | str uri =>
      exact Alone.ite (fun _ => Alone.done hSeen) fun _ => collectUri_ingest ctx hPlatform _ hSeen
  | _ => exact Alone.raise trivial

theorem runCollect_ingest (ctx : PipelineContext) (hPlatform : ctx.services.platform = p) :
    Alone (IngestMoment p ctx.runId) (onOk fun _ _ => True) (runCollect ctx) s := by
  refine Alone.bind_ok _ (Alone.inert (quiet_selectTables _) (kept_selectTables _)) fun state t _ =>
    ?_
  refine Alone.bind_ok _ (Alone.inert (quiet_ofExcept _) (kept_ofExcept _)) fun urls u _ => ?_
  refine Alone.bind_ok _ (Alone.inert (quiet_selectTables _) (kept_selectTables _))
    fun existing v _ => ?_
  have hEmpty : SeenStored ctx.runId ({} : Collected) v := by rintro entry ⟨⟩
  refine Alone.bind_ok (fun state w => SeenStored ctx.runId state w)
    (Alone.foldlM (fun _ state w => SeenStored ctx.runId state w) ?_ (fun _ _ h => h) urls hEmpty)
    fun _ _ _ => Alone.done trivial
  intro url rest acc w hSeen
  exact (collectEntry_ingest ctx hPlatform existing url hSeen).post fun r _ hr => by
    cases r <;> exact hr

/-! ## Store -/

/-- Read the tables and go on with the result. -/
theorem Alone.lookIngest {α β : Type} {f : Tables → α} {g : α → Action β} {Q : β → World → Prop}
    (hRest : Alone (IngestMoment p runId) (onOk Q) (g (f s.tables)) s) :
    Alone (IngestMoment p runId) (onOk Q) ((Ecrke.selectTables f).bind g) s := by
  have hStill {happening : Happening Vocabulary} : IngestMoment p runId ⟨s, happening, s⟩ :=
    ⟨.aside rfl rfl, .of_kept _ rfl⟩
  refine Alone.bind_ok (fun value t => t = s ∧ value = f s.tables)
    (Alone.select hStill hStill ⟨rfl, rfl⟩ fun _ => trivial) ?_
  rintro value t ⟨rfl, rfl⟩
  exact hRest

/-- Read rows without an order and go on with them. -/
theorem Alone.rowsIngest {ρ β : Type} {f : Tables → List ρ} {g : List ρ → Action β}
    {Q : β → World → Prop}
    (hRest : ∀ rows, rows.Perm (f s.tables) → Alone (IngestMoment p runId) (onOk Q) (g rows) s) :
    Alone (IngestMoment p runId) (onOk Q) ((Ecrke.selectRows f).bind g) s := by
  refine Alone.bind_ok (fun rows t => t = s ∧ rows.Perm (f s.tables)) ?_ ?_
  · refine Alone.lookIngest (Alone.bind_ok (fun _ t => t = s) (Alone.query fun order => ?_) ?_)
    · exact ⟨⟨.aside rfl rfl, .of_kept _ rfl⟩, rfl⟩
    · rintro order t rfl
      exact Alone.done ⟨rfl, perm_arrange⟩
  · rintro rows t ⟨rfl, hRows⟩
    exact hRest rows hRows

/-- The passages of chunks none of which is known. -/
theorem newPassages_ingest (q : Platform) (sourceId : Uuid) (chunks : List Chunk) :
    Alone (IngestMoment p runId)
      (onOk fun rows t => ChunksOf sourceId chunks rows ∧ t.db = s.db ∧ t.blobs = s.blobs)
      (newPassages q sourceId [] chunks) s := by
  refine Alone.bind_ok _ (Alone.mapM_forall₂ (S := Vocabulary)
    (fun entry found => ∃ row, found = some row ∧ row.sourceId = sourceId ∧ row.seq = entry.2 ∧
      row.text = entry.1.text ∧ row.startChar = some entry.1.startChar ∧
      row.endChar = some entry.1.endChar) (fun t => t.db = s.db ∧ t.blobs = s.blobs) _ ?_
    ⟨rfl, rfl⟩) fun found t hFound => Alone.done ⟨?_, hFound.2⟩
  · intro entry _ t ht
    refine Alone.ite (fun h => absurd h (by simp)) fun _ => ?_
    refine Alone.bind_ok _ (Alone.inert quiet_uuid4 (kept_query _)) fun id u hu => ?_
    exact Alone.done ⟨⟨_, rfl, rfl, rfl, rfl, rfl, rfl⟩, hu.1.trans ht.1, hu.2.trans ht.2⟩
  · have hRows := hFound.1
    clear hFound
    unfold ChunksOf
    generalize chunks.zipIdx = entries at hRows ⊢
    induction hRows with
    | nil => exact .nil
    | cons hRow _ ih =>
        obtain ⟨row, rfl, hFields⟩ := hRow
        exact .cons hFields ih

/-- One source: all its passages and its status are one commit. -/
theorem storeSource_ingest (ctx : PipelineContext) (hPlatform : ctx.services.platform = p)
    {source : Source} (hSource : source ∈ s.tables.sources) (hRun : source.runId = ctx.runId)
    (hStatus : source.status = .fetched) :
    Alone (IngestMoment p ctx.runId)
      (onOk fun _ t => t.tables.sources = modifyRow Source.id source.id
        (fun s => { s with status := .normalized }) s.tables.sources)
      (storeSource ctx [] source) s := by
  subst hPlatform
  have hStill {w : World} {happening : Happening Vocabulary} :
      IngestMoment ctx.services.platform ctx.runId ⟨w, happening, w⟩ :=
    ⟨.aside rfl rfl, .of_kept _ rfl⟩
  have hGet : Alone (IngestMoment ctx.services.platform ctx.runId)
      (onOk fun content t => t = s ∧
        BlobStore.lookup (source.rawRef.getD []) s.blobs = some content)
      (BlobStore.get ctx.services.platform ctx.services.settings (source.rawRef.getD [])) s := by
    refine Alone.bind_ok (fun found t => t = s ∧
      found = BlobStore.lookup (source.rawRef.getD []) s.blobs)
      (Alone.select hStill hStill ⟨rfl, rfl⟩ fun _ => trivial) ?_
    rintro found t ⟨rfl, hFound⟩
    cases found with
    | none => exact Alone.raise trivial
    | some content => exact Alone.done ⟨rfl, hFound.symm⟩
  refine Alone.bind_ok _ hGet ?_
  rintro content t ⟨rfl, hContent⟩
  refine Alone.bind_ok _ (Alone.ofExcept_eq _) ?_
  rintro text u ⟨rfl, hText⟩
  refine Alone.bind_ok _ (newPassages_ingest _ _ _) fun rows v hv => ?_
  obtain ⟨hRows, hDb, hBlobs⟩ := hv
  have hTables : v.tables = u.tables := by rw [World.tables, World.tables, hDb]
  refine Alone.lookIngest ?_
  -- The row is the one which was read, so its status is written.
  have hCurrent : findRow Source.id source.id v.tables.sources = some source := by
    rw [hTables]
    exact u.db.valid.sourcesKey.findRow_eq hSource
  have hNot : source.status ≠ .normalized := by simp [hStatus]
  rw [hCurrent]
  simp only [if_neg hNot]
  have hAfter : v.tables.after (rows.map .insertPassage ++
      [Write.updateSource source.id .normalized]) =
      { u.tables with
        passages := u.tables.passages ++ rows
        sources := modifyRow Source.id source.id (fun s => { s with status := .normalized })
          u.tables.sources } := by
    rw [hTables, Tables.after_append, Tables.after_insertPassages]
    rfl
  refine Alone.bind_ok _ (Alone.commitIngest fun w hw => ?_) fun _ w hw => Alone.done ?_
  · rw [hAfter] at hw
    refine .stored source (by rwa [hTables]) hRun hStatus content text rows (by rwa [hBlobs]) hText
      hRows (by rw [hw, hTables]) (by rw [hw, hTables])
  · rw [onOk_ok, hw.1, hAfter]

/-- The sources which a task still has to store. -/
structure StoreLoop (runId : Uuid) (sources : List Source) (t : Tables) : Prop where
  distinct : (sources.map Source.id).Nodup
  pending : ∀ source ∈ sources, source ∈ t.sources ∧ source.runId = runId ∧
    source.status = .fetched

/-- The task of the store stage, started while no fetched source has passages. -/
theorem runStore_ingest (ctx : PipelineContext) (hPlatform : ctx.services.platform = p)
    (hNone : ∀ source ∈ s.tables.sources, source.runId = ctx.runId → source.status = .fetched →
      ∀ row ∈ s.tables.passages, row.sourceId ≠ source.id) :
    Alone (IngestMoment p ctx.runId) (onOk fun _ _ => True) (runStore ctx) s := by
  unfold runStore
  refine Alone.rowsIngest fun rows hRows => ?_
  have hSource (source : Source) (hMem : source ∈ rows.filter fun s => s.status = .fetched) :
      source ∈ s.tables.sources ∧ source.runId = ctx.runId ∧ source.status = .fetched := by
    obtain ⟨hRow, hStatus⟩ := List.mem_filter.mp hMem
    obtain ⟨hIn, hRun⟩ := List.mem_filter.mp (hRows.mem_iff.mp hRow)
    exact ⟨hIn, by simpa using hRun, by simpa using hStatus⟩
  refine Alone.ite (fun _ => Alone.done trivial) fun _ => Alone.lookIngest ?_
  have hHashes : ((s.tables.passages.filter fun p =>
      (rows.filter fun s => s.status = .fetched).any fun s => s.id = p.sourceId).map
        Passage.hash) = [] := by
    rw [List.map_eq_nil_iff, List.filter_eq_nil_iff]
    intro row hRow hAny
    obtain ⟨source, hMem, hId⟩ := List.any_eq_true.mp hAny
    obtain ⟨hIn, hRun, hStatus⟩ := hSource source hMem
    exact hNone source hIn hRun hStatus row hRow (by simpa using Eq.symm (by simpa using hId))
  rw [hHashes]
  have hStart : StoreLoop ctx.runId (rows.filter fun s => s.status = .fetched) s.tables := by
    refine ⟨?_, hSource⟩
    have hKey : (rows.map Source.id).Nodup :=
      (hRows.map Source.id).nodup_iff.mpr (s.db.valid.sourcesKey.filter _)
    exact hKey.sublist (List.filter_sublist.map _)
  refine Alone.bind_ok (fun _ (t : World) => StoreLoop ctx.runId [] t.tables)
    (Alone.foldlM_ok (S := Vocabulary)
      (fun rest (t : World) => StoreLoop ctx.runId rest t.tables) ?_ _ hStart)
    fun _ _ _ => Alone.done trivial
  rintro source rest total t ⟨hDistinct, hPending⟩
  obtain ⟨hIn, hRun, hStatus⟩ := hPending source (by simp)
  refine Alone.bind_ok _ (storeSource_ingest ctx hPlatform hIn hRun hStatus) fun count u hu =>
    Alone.done ?_
  rw [List.map_cons, List.nodup_cons] at hDistinct
  refine ⟨hDistinct.2, fun other hOther => ?_⟩
  obtain ⟨hIn, hRest⟩ := hPending other (by simp [hOther])
  have hNe : other.id ≠ source.id := fun hId => hDistinct.1 (hId ▸ List.mem_map_of_mem hOther)
  exact ⟨hu ▸ mem_modifyRow.mpr (.inr ⟨hIn, hNe⟩), hRest⟩

/-! ## All stages -/

theorem sourceRef_ne_reportRef (runId id : Uuid) : sourceRef runId id ≠ reportRef runId := by
  have hRun := Uuid.length_str runId
  have hId := Uuid.length_str id
  have hSource : (sourceRef runId id).length = 86 := by
    unfold sourceRef
    rw [List.length_append, List.length_append, List.length_append, hRun, hId]
    rfl
  have hReport : (reportRef runId).length = 59 := by
    unfold reportRef
    rw [List.length_append, List.length_append, hRun]
    rfl
  intro h
  rw [h, hReport] at hSource
  omega

/-- The blobs which a task adds under the references of the sources have passed the filter. -/
theorem stageTasks_adds (stage : Stage) (ctx : PipelineContext)
    (hPlatform : ctx.services.platform = p) :
    Alone (BlobsAdd (SafeBlob p ctx.runId)) anyEnd (stageTasks stage ctx) s := by
  have hKept := BlobsKept.allows ctx.services.platform.unicode
  cases stage with
  | define => exact Alone.keptEnd (hKept.runDefine ctx)
  | search => exact Alone.keptEnd (hKept.runSearch ctx)
  | collect => exact (runCollect_ingest ctx hPlatform).mono (fun _ h => h.2) fun _ _ _ => trivial
  | store => exact Alone.keptEnd (hKept.runStore ctx)
  | extract => exact Alone.keptEnd (hKept.runExtract ctx)
  | verify => exact Alone.keptEnd (hKept.runVerify ctx)
  | find => exact Alone.keptEnd (hKept.runFind ctx)
  | detect => exact Alone.keptEnd (hKept.runDetect ctx)
  | conclude =>
      refine (runConclude_adds ctx).mono (fun m hm => ⟨hm.1, fun ref content h => ?_⟩)
        fun _ _ h => h
      refine (hm.2 ref content h).imp_right fun hReport => ?_
      rintro ⟨id, hRef⟩
      exact absurd (hRef.symm.trans hReport) (sourceRef_ne_reportRef _ id)
  | trace => exact Alone.keptEnd (hKept.runTrace ctx)

/-- No task replaces a blob. -/
theorem stageTasks_blobs (stage : Stage) (ctx : PipelineContext) :
    Alone BlobsGrow anyEnd (stageTasks stage ctx) s :=
  (stageTasks_adds stage ctx rfl).mono (fun _ h => h.1) fun _ _ h => h

end Programs

end Ecrke
