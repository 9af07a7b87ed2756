import Ecrke.Durable.Executions
import Ecrke.Services.Normalizer
import Mathlib.Data.List.TakeWhile

/-!
# The audit writer

The single insertion path of the audit trail: the fields of a verdict are checked and redacted, and
the row joins the transaction of the caller.

* `AuditEntry` -- the arguments of `append`.
* `AuditEntry.check` -- its checks, and `AuditEntry.row`, the redacted row.
* `AuditEntry.Labelled`, `AuditEntry.check_iff` -- an entry whose short fields are in order is
  accepted just if its reason is short enough.
* `auditAppend` -- `AuditWriter.append`, and `auditAppend_returns`, what it returns.
-/

namespace Ecrke

/-- `_MAX_FIELD_LEN` -/
def maxFieldLen : Nat := 64

/-- `_MAX_REASON_LEN` -/
def maxReasonLen : Nat := 2000

/-- The arguments of `AuditWriter.append`. -/
structure AuditEntry where
  runId : Uuid
  entityType : Text
  entityId : Option Text
  action : Text
  actor : Option Text
  decision : Option Text
  reason : Option Text
  evidence : Option Json

/-- A required string field is not blank and at most 64 characters long. -/
def requireString (value : Text) (field : String) : Except PyError Unit :=
  if (Text.strip value).isEmpty then .error ⟨.valueError, (field ++ " is required").toList⟩
  else if maxFieldLen < value.length then
    .error ⟨.valueError, (field ++ " must be at most 64 characters").toList⟩
  else .ok ()

/-- An optional string field, when present, is not blank and at most 64 characters long. -/
def optionalString (value : Option Text) (field : String) : Except PyError Unit :=
  match value with
  | none => .ok ()
  | some value =>
      if (Text.strip value).isEmpty then
        .error ⟨.valueError, (field ++ " must be non-empty when provided").toList⟩
      else if maxFieldLen < value.length then
        .error ⟨.valueError, (field ++ " must be at most 64 characters").toList⟩
      else .ok ()

namespace AuditEntry

/-- The checks of `append`, in the order of the source. -/
def check (entry : AuditEntry) : Except PyError Unit := do
  requireString entry.entityType "entity_type"
  requireString entry.action "action"
  optionalString entry.entityId "entity_id"
  optionalString entry.actor "actor"
  optionalString entry.decision "decision"
  match entry.reason with
  | some reason =>
      if maxReasonLen < reason.length then
        .error ⟨.valueError, "reason must be at most 2000 characters".toList⟩
      else .ok ()
  | none => .ok ()

/-- The redacted row. -/
def row (u : Unicode) (entry : AuditEntry) (id : Uuid) (ts : Instant) : AuditTrace where
  id
  runId := entry.runId
  entityType := redactSecrets u entry.entityType
  entityId := entry.entityId.map (redactSecrets u)
  action := redactSecrets u entry.action
  actor := entry.actor.map (redactSecrets u)
  decision := entry.decision.map (redactSecrets u)
  reason := entry.reason.map (redactSecrets u)
  evidence := entry.evidence.map (redactJson u)
  ts

/-- An entity type without secret letters is kept as it is. -/
theorem row_entityType {u : Unicode} {entry : AuditEntry} {id : Uuid} {ts : Instant} {text : Text}
    (hText : entry.entityType = text) (h : Secretless text) :
    (entry.row u id ts).entityType = text := by
  rw [← hText] at h ⊢
  exact redactSecrets_eq_self u h

/-- The short fields of an entry are in order. -/
structure Labelled (entry : AuditEntry) : Prop where
  entityType : requireString entry.entityType "entity_type" = .ok ()
  action : requireString entry.action "action" = .ok ()
  entityId : optionalString entry.entityId "entity_id" = .ok ()
  actor : optionalString entry.actor "actor" = .ok ()
  decision : optionalString entry.decision "decision" = .ok ()

/-- Such an entry is accepted just if its reason is short enough. -/
theorem check_iff {entry : AuditEntry} (h : entry.Labelled) {reason : Text}
    (hReason : entry.reason = some reason) :
    entry.check = .ok () ↔ reason.length ≤ maxReasonLen := by
  unfold check
  rw [h.entityType, h.action, h.entityId, h.actor, h.decision, hReason]
  simp only [bind, Except.bind]
  split <;> simp_all

end AuditEntry

/-- A text with a character which is no blank is not blank. -/
theorem Text.strip_ne_nil {t : Text} {c : Char} (hc : c ∈ t) (hSpace : Text.isSpace c = false) :
    Text.strip t ≠ [] := by
  intro hNil
  have hAll := List.dropWhile_eq_nil_iff.mp (List.reverse_eq_nil_iff.mp hNil)
  rw [← List.takeWhile_append_dropWhile (p := Text.isSpace) (l := t)] at hc
  have hIsSpace : Text.isSpace c = true := by
    rcases List.mem_append.mp hc with hTaken | hDropped
    · exact List.mem_takeWhile_imp hTaken
    · exact hAll c (List.mem_reverse.mpr hDropped)
  rw [hSpace] at hIsSpace
  cases hIsSpace

/-- An identifier is accepted as the entity of an entry. -/
theorem optionalString_uuid (id : Uuid) (field : String) :
    optionalString (some id.str) field = .ok () := by
  have hDash : '-' ∈ id.str := by simp [Uuid.str]
  have hStrip := Text.strip_ne_nil hDash (by decide)
  have hBlank : (Text.strip id.str).isEmpty = false := by simpa using hStrip
  simp [optionalString, hBlank, Uuid.length_str, maxFieldLen]

/-- Check an entry and make its row; the caller commits it. -/
def auditAppend (p : Platform) (entry : AuditEntry) : Action AuditTrace := do
  Durable.Prog.ofExcept entry.check
  let id ← uuid4
  let ts ← dbNow
  pure (entry.row p.unicode id ts)

/-- The rows which `auditAppend` returns. -/
theorem auditAppend_returns {p : Platform} {entry : AuditEntry} :
    Durable.Returns (fun row => ∃ auditId ts, row = entry.row p.unicode auditId ts)
      (auditAppend p entry) :=
  Durable.returns_bind fun _ => Durable.returns_bind fun auditId => Durable.returns_bind fun ts =>
    Durable.returns_done ⟨auditId, ts, rfl⟩

end Ecrke
