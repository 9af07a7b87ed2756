import Ecrke.World

/-!
# The repeat-call cache

A cache over the `kv_cache` table with expiry.

* `buildKey`, `buildPromptHash` -- the key and the prompt hash of a call.
* `KVCache.get`, `KVCache.set`, `KVCache.delete` -- the operations.
-/

namespace Ecrke

/-- `_SECRET_KEY_HINTS` -/
def secretKeyHints : List Text :=
  ["password".toList, "passwd".toList, "secret".toList, "token".toList, "credential".toList,
    "authorization".toList, "api_key".toList, "apikey".toList, "_key".toList]

/-- A payload key hints that its value is a credential. -/
def isSecretKey (u : Unicode) (key : Text) : Bool :=
  secretKeyHints.any fun hint => Text.occursIn hint (Text.lower u key)

/-- `_canonical_json` -/
def canonicalJson (p : Platform) (inputs : List (Text × Json)) : Text :=
  Json.dumps p.floatRepr ",".toList ":".toList (.obj inputs)

/-- The cache key of a call. -/
def buildKey (p : Platform) (model prompt : Text) (inputs : List (Text × Json)) : Text :=
  p.sha256 (Bytes.encodeUtf8
    (model ++ "|".toList ++ prompt ++ "|".toList ++ canonicalJson p inputs))

/-- The prompt hash of a call. -/
def buildPromptHash (p : Platform) (prompt : Text) (inputs : List (Text × Json)) : Text :=
  p.sha256 (Bytes.encodeUtf8 (prompt ++ "|".toList ++ canonicalJson p inputs))

/-- Reject payloads whose keys hint at credentials. -/
def assertNoSecretPayload (p : Platform) (payload : List (Text × Json)) : Except PyError Unit :=
  match payload.find? fun entry => isSecretKey p.unicode entry.1 with
  | none => .ok ()
  | some entry => .error ⟨.valueError, "Cache payload key ".toList ++
      Text.repr p.unicode entry.1 ++ (" looks like a secret/credential; credentials must never " ++
        "be persisted in the kv_cache (Rule 01, G-05).").toList⟩

namespace KVCache

/-- `await session.get(KVEntry, key)` -/
def entry (key : Text) : Action (Option KVEntry) :=
  selectTables fun t => Durable.findRow KVEntry.key key t.kvCache

/-- The payload of a key, if it is present and has not expired. -/
def get (key : Text) : Action (Option Json) := do
  match ← entry key with
  | none => pure none
  | some found =>
      match found.expiresAt with
      | none => pure (some found.payload)
      | some expiresAt =>
          let clock ← now
          if expiresAt ≤ clock then
            commitWrites [.deleteKVEntry key]
            pure none
          else pure (some found.payload)

/-- Upsert a key with a payload. -/
def set (p : Platform) (key model promptHash : Text) (payload : List (Text × Json))
    (ttlSeconds : Option Int) : Action Unit := do
  Durable.Prog.ofExcept (assertNoSecretPayload p payload)
  let expiresAt ← match ttlSeconds with
    | none => pure none
    | some seconds => do
        let clock ← now
        pure (some (clock + seconds))
  let row : KVEntry := ⟨key, model, promptHash, .obj payload, expiresAt⟩
  match ← entry key with
  | none => commitWrites [.insertKVEntry row]
  | some _ => commitWrites [.updateKVEntry row]

/-- The last part of `set`: the row is inserted, or updated if its key is present. -/
def upsert (row : KVEntry) : Action Unit := do
  match ← entry row.key with
  | none => commitWrites [.insertKVEntry row]
  | some _ => commitWrites [.updateKVEntry row]

/-- Remove an entry if it is present. -/
def delete (key : Text) : Action Unit := do
  match ← entry key with
  | none => pure ()
  | some _ => commitWrites [.deleteKVEntry key]

end KVCache

end Ecrke
