import Ecrke.Services.Collection
import Ecrke.Services.Redaction

/-!
# The direct-URL connector

* `UrlConnector.collect` -- `URLConnector.collect`: fetch, redact, deduplicate, normalize, filter,
  store.

The connector stands beside the pipeline: the collect stage has an ingestion of its own.
-/

namespace Ecrke

open Durable

/-- `_UNSAFE_TERMS` of the normalizer. -/
def normalizerUnsafeTerms : List Text := ["bomb-making".toList]

/-- An unsafe term is in the text, whatever its case. -/
def containsUnsafeContent (u : Unicode) (text : Text) : Bool :=
  normalizerUnsafeTerms.any fun term => Text.occursIn term (Text.lower u text)

/-- The source type of a text. -/
def SourceType.ofValue (value : Text) : Option SourceType :=
  [.web, .pdf, .rss, .docx, .rtf, .upload, .other].find? fun type => type.value = value

/-- `Normalizer.normalize`, where the source type is a text. -/
def normalizeNamed (p : Platform) (sourceType : Text) (content : Bytes) :
    Except PyError (SourceType × Text) :=
  match SourceType.ofValue sourceType with
  | some type => do
      let text ← normalize p type content
      pure (type, text)
  | none => .error ⟨.valueError, "unsupported source_type ".toList ++
      Text.repr p.unicode sourceType ++ " (supported: docx, pdf, rtf, web)".toList⟩

namespace UrlConnector

/-- The arguments of `collect`. -/
structure CollectArgs where
  uri : Text
  runId : Uuid
  title : Option Text := none
  sourceType : Option Text := none

/-- `source_type or classify_source(content_type, uri).value` -/
def effectiveType (p : Platform) (args : CollectArgs) (fetched : FetchedContent) : Text :=
  let classified := (classifySource p.unicode fetched.contentType fetched.uri).value
  match args.sourceType with
  | some given => if given.isEmpty then classified else given
  | none => classified

/-- The passages of the chunks of a text. -/
def passages (p : Platform) (sourceId : Uuid) (chunks : List Chunk) : Action (List Passage) :=
  chunks.zipIdx.mapM fun (chunk, seq) => do
    let id ← uuid4
    let hash := contentHash p (Bytes.encodeUtf8 chunk.text)
    pure { id, sourceId, seq, text := chunk.text, startChar := some chunk.startChar,
           endChar := some chunk.endChar, hash : Passage }

/-- Store content which is safe, with its passages. -/
def storeSafe (p : Platform) (args : CollectArgs) (fetched : FetchedContent) (type : SourceType)
    (digest : Text) (safeBytes : Bytes) (text : Text) : Action Source := do
  BlobStore.put digest safeBytes
  let id ← uuid4
  let source : Source :=
    { id, runId := args.runId, uri := fetched.uri, title := args.title, sourceType := type,
      contentHash := digest, rawRef := some digest, allowlistedUri := true, status := .normalized }
  let rows ← passages p id (chunkPassages text)
  commitWrites (.insertSource source :: rows.map .insertPassage)
  pure source

/-- Record content which is not safe. -/
def quarantine (args : CollectArgs) (fetched : FetchedContent) (type : SourceType)
    (digest : Text) : Action Source := do
  let id ← uuid4
  let quarantined : Source :=
    { id, runId := args.runId, uri := fetched.uri, title := args.title, sourceType := type,
      contentHash := digest, rawRef := none, allowlistedUri := true, status := .quarantined }
  commitWrites [.insertSource quarantined]
  pure quarantined

/-- `URLConnector.collect` -/
def collect (p : Platform) (settings : Settings) (args : CollectArgs) : Action Source := do
  let fetched ← fetch p settings args.uri "url".toList
  let safeBytes := redactBytesForStorage p.unicode fetched.content
  let digest := contentHash p safeBytes
  let existing ← selectRows fun t => t.sources.filter fun s => s.contentHash = digest
  match existing.head? with
  | some existing => pure existing
  | none =>
      let (type, text) ← Prog.ofExcept
        (normalizeNamed p (effectiveType p args fetched) safeBytes)
      if containsUnsafeContent p.unicode text then quarantine args fetched type digest
      else storeSafe p args fetched type digest safeBytes text

end UrlConnector

end Ecrke
