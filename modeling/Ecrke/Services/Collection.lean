import Ecrke.Services.LLMGateway
import Ecrke.Services.Normalizer

/-!
# Collection: search, egress, safety, blobs

* `search` -- `SearchConnector.search`.
* `Allowlist` -- the default-deny gate for outbound requests.
* `fetch` -- `Fetcher.fetch`: the gate, the rate limit, then a local file or the network.
* `findUnsafeCategories` -- the content safety filter.
* `BlobStore.put`, `BlobStore.get` -- the local blob store.
-/

namespace Ecrke

open Durable

/-! ## Search -/

/-- `SearchConnector.search`: a limit of zero stands for the default. -/
def search (settings : Settings) (query : Json) (limit : Nat) : Action (List Text) := do
  let effective := if limit = 0 then settings.searchResultsLimit else limit
  let found ← Prog.query (S := Vocabulary) (.searchBackend query effective)
  Prog.ofExcept (show Except PyError (List Text) from found)

/-! ## Allowlist -/

/-- `value.split(",")` -/
def splitCommas (t : Text) : List Text := t.splitOnP (· == ',')

/-- The normal form of an allowlist entry: stripped, in lower case, without leading `*` and `.`. -/
def normalizeDomain (u : Unicode) (domain : Text) : Text :=
  (Text.lower u (Text.strip domain)).dropWhile fun c => c == '*' || c == '.'

/-- The domains of an allowlist, each once and sorted. -/
def Allowlist.domains (u : Unicode) (entries : List Text) : List Text :=
  (((entries.filter fun d => !(Text.strip d).isEmpty).map (normalizeDomain u)).dedup).mergeSort
    Text.le

/-- `Allowlist.from_settings` -/
def Allowlist.fromSettings (u : Unicode) (settings : Settings) : List Text :=
  Allowlist.domains u
    (((splitCommas settings.allowedDomains).map Text.strip).filter fun d => !d.isEmpty)

/-- A host is an allowlisted domain or one of its subdomains. -/
def Allowlist.allows (u : Unicode) (domains : List Text) (host : Text) : Bool :=
  let host := Text.lower u (Text.strip host)
  !host.isEmpty && domains.any fun domain =>
    host = domain || Text.endsWith ('.' :: domain) host

/-- Raise unless the host of a URI is allowlisted. -/
def Allowlist.check (p : Platform) (domains : List Text) (uri : Text) : Except PyError Unit :=
  match p.urlparse uri with
  | none => .error ⟨.valueError, "Invalid URL".toList⟩
  | some parsed =>
      let host := Text.lower p.unicode (parsed.hostname.getD [])
      if host.isEmpty || !Allowlist.allows p.unicode domains host then
        .error ⟨.allowlistDeniedError, "URI host ".toList ++
          Text.repr p.unicode (if host.isEmpty then "(none)".toList else host) ++
          " is not on the ALLOWED_DOMAINS egress allowlist (G-06)".toList⟩
      else .ok ()

/-! ## Fetcher -/

/-- The scheme of local files. -/
def fileScheme : Text := "file://".toList

/-- `FetchedContent` -/
structure FetchedContent where
  uri : Text
  content : Bytes
  contentType : Text
  fetchedAt : Instant

/-- `Path(path).suffix` -/
def pathSuffix (path : Text) : Text :=
  let name := (path.reverse.takeWhile (· != '/')).reverse
  match name.reverse.findIdx? (· == '.') with
  | some fromEnd =>
      if 0 < fromEnd ∧ fromEnd + 1 < name.length then name.drop (name.length - 1 - fromEnd) else []
  | none => []

/-- The content type of a local file. -/
def fileContentType (u : Unicode) (path : Text) : Text :=
  let suffix := Text.lower u (pathSuffix path)
  let table : List (Text × Text) :=
    [(".html".toList, "text/html".toList), (".txt".toList, "text/plain".toList),
      (".rss".toList, "application/rss+xml".toList), (".xml".toList, "application/xml".toList),
      (".pdf".toList, "application/pdf".toList), (".jsonl".toList, "application/jsonl".toList)]
  ((table.find? fun entry => entry.1 = suffix).map Prod.snd).getD
    "application/octet-stream".toList

/-- `self._last_fetch_at[connector] = time` -/
def recordFetch (connector : Text) (time : Instant) : Action Unit :=
  modifyMemory fun m => { m with
    lastFetchAt := (connector, time) :: m.lastFetchAt.filter fun entry => entry.1 ≠ connector }

/-- Wait until the rate limit of a connector allows the next fetch. -/
def awaitRateLimit (settings : Settings) (connector : Text) : Action Unit := do
  let time ← now
  let last ← readMemory fun m => (m.lastFetchAt.find? fun e => e.1 = connector).map Prod.snd
  match last with
  | some last =>
      if time - last < settings.fetchMinIntervalSeconds then
        sleep (settings.fetchMinIntervalSeconds - (time - last))
      else pure ()
  | none => pure ()

/-- A local file. -/
def fetchFile (p : Platform) (uri connector : Text) : Action FetchedContent := do
  let path := uri.drop fileScheme.length
  let found ← Prog.query (S := Vocabulary) (.readFile path)
  let found ← Prog.ofExcept (show Except PyError (Option Bytes) from found)
  match found with
  | none =>
      raiseError .fetchError
        ("local file ".toList ++ Text.repr p.unicode uri ++ " not found".toList)
  | some content =>
      let time ← now
      recordFetch connector time
      let fetchedAt ← now
      pure ⟨uri, content, fileContentType p.unicode path, fetchedAt⟩

/-- A network request; redirects are not followed. -/
def fetchHttp (p : Platform) (uri connector : Text) : Action FetchedContent := do
  let failed := "fetch ".toList ++ Text.repr p.unicode uri ++ " failed".toList
  let answer ← Prog.query (S := Vocabulary) (.httpGet uri)
  match (show Except Text HttpResponse from answer) with
  | .error message => raiseError .fetchError (failed ++ ": ".toList ++ message)
  | .ok response =>
      let time ← now
      recordFetch connector time
      if response.statusCode ≠ 200 then
        raiseError .fetchError
          (failed ++ " with status ".toList ++ Text.ofNat response.statusCode)
      else
        let fetchedAt ← now
        pure ⟨uri, response.content, response.contentType, fetchedAt⟩

/-- `Fetcher.fetch` -/
def fetch (p : Platform) (settings : Settings) (uri : Text)
    (connector : Text := "default".toList) : Action FetchedContent := do
  if Text.startsWith fileScheme uri then pure ()
  else Prog.ofExcept (Allowlist.check p (Allowlist.fromSettings p.unicode settings) uri)
  awaitRateLimit settings connector
  if Text.startsWith fileScheme uri then fetchFile p uri connector
  else fetchHttp p uri connector

/-! ## Content safety -/

/-- `_TERMS` -/
def unsafeTerms : List (Text × List Text) :=
  [("violence".toList, ["bomb-making".toList, "pipe bomb".toList, "explosive device".toList,
      "how to build a bomb".toList]),
    ("hate".toList, ["ethnic cleansing".toList, "hate speech".toList,
      "white supremacist".toList]),
    ("sexual".toList, ["child sexual abuse".toList, "sexual exploitation of minors".toList]),
    ("illicit".toList, ["darknet market".toList, "illegal drug manufacture".toList,
      "credit card fraud".toList])]

/-- The categories which a text matches. -/
def findUnsafeCategories (u : Unicode) (text : Text) : List Text :=
  (unsafeTerms.filter fun entry =>
    entry.2.any fun phrase => Text.occursIn phrase (Text.casefold u text)).map Prod.fst

/-- Some category matches. -/
def isUnsafe (u : Unicode) (text : Text) : Bool := !(findUnsafeCategories u text).isEmpty

/-- The reason which a quarantined source is given. -/
def unsafeReason (u : Unicode) (text : Text) : Text :=
  let categories := findUnsafeCategories u text
  if categories.isEmpty then "content flagged as unsafe: no categories".toList
  else "content flagged as unsafe: ".toList ++ Text.join ", ".toList categories

/-! ## Blobs -/

namespace BlobStore

/-- The content stored at a reference. -/
def lookup (ref : Text) (blobs : List (Text × Bytes)) : Option Bytes :=
  (blobs.find? fun entry => entry.1 = ref).map Prod.snd

/-- Write a content atomically; nothing happens when the reference exists. -/
def put (ref : Text) (content : Bytes) : Action Unit := do
  let exists_ ← Prog.select (S := Vocabulary) fun (w : World) => (lookup ref w.blobs).isSome
  if exists_ then pure ()
  else Prog.commit (S := Vocabulary) fun (w : World) =>
    .ok ((), { w with
      blobs := (ref, content) :: w.blobs.filter fun entry => entry.1 ≠ ref })

/-- Read the content of a reference.  A `KeyError` quotes its message. -/
def get (p : Platform) (settings : Settings) (ref : Text) : Action Bytes := do
  let found ← Prog.select (S := Vocabulary) fun (w : World) => lookup ref w.blobs
  match found with
  | some content => pure content
  | none =>
      raiseError .blobNotFoundError (Text.repr p.unicode
        ("blob ".toList ++ Text.repr p.unicode ref ++ " not found in ".toList ++
          settings.blobStoreDir))

end BlobStore

end Ecrke
