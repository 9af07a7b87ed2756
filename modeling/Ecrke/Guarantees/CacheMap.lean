import Ecrke.Durable.Expiry
import Ecrke.Guarantees.MeteredCalls

/-!
# The cache as a map

Calls of the cache one after the other, by a clock which does not go back.

* `CacheOp`, `CacheCall`, `CacheHistory` -- the operations, a call and what it comes to, and calls
  one after the other.
* `CacheCall.change` -- what a call does to the abstract map.
* `held` -- what the table has under a key.
* `CacheCall.step` -- one call: the table follows the map, up to expired entries.
* `cache_refines` -- the cache answers as the map does, and a rejected payload changes nothing.
-/

namespace Ecrke

open Durable

/-! ## Calls -/

/-- The operations of the cache. -/
inductive CacheOp where
  | get (key : Text)
  | set (key model promptHash : Text) (payload : List (Text × Json)) (ttlSeconds : Option Int)
  | delete (key : Text)

/-- An operation, with what it returns: a payload or nothing. -/
def CacheOp.run (p : Platform) : CacheOp → Action (Option Json)
  | .get key => KVCache.get key
  | .set key model promptHash payload ttlSeconds => do
      KVCache.set p key model promptHash payload ttlSeconds
      pure none
  | .delete key => do
      KVCache.delete key
      pure none

/-- A call: the clock at its time, its steps, and how far it has come.  It may have returned, raised,
or been cut off. -/
structure CacheCall where
  op : CacheOp
  time : Instant
  log : Log Vocabulary
  left : Action (Option Json)

/-- The step carries out a transaction. -/
def Moment.moves (m : Moment Vocabulary) : Bool :=
  match m.happening with
  | .moved => true
  | _ => false

/-- A call is carried out if it returns; one which does not return may have been, if the report of
its transaction is lost. -/
def CacheCall.applied (call : CacheCall) : Bool :=
  call.left.returned.isSome || call.log.any Moment.moves

/-- What a call does to the map: a `set` which is carried out puts its payload, a `delete` removes
its key. -/
def CacheCall.change (call : CacheCall) : Change Text Json Instant :=
  match call.op, call.applied with
  | .set key _ _ payload ttlSeconds, true =>
      .put key ⟨.obj payload, ttlSeconds.map fun seconds => call.time + seconds⟩
  | .delete key, true => .remove key
  | _, _ => .nothing

/-- The payload of a `set` has a key which looks like a secret. -/
def CacheOp.Hinted (p : Platform) : CacheOp → Prop
  | .set _ _ _ payload _ => ∃ entry ∈ payload, isSecretKey p.unicode entry.1 = true
  | _ => False

/-- Calls one after the other, by a clock which does not go back. -/
inductive CacheHistory (p : Platform) (s : World) : List CacheCall → World → Prop where
  | nil : CacheHistory p s [] s
  | snoc {t u : World} {calls : List CacheCall} (past : CacheHistory p s calls t)
      (call : CacheCall) (last : Exec (call.op.run p) t call.log call.left u)
      (hClock : ∀ m ∈ call.log, ∀ reading, Moment.clock m = some reading → reading = call.time)
      (hLater : ∀ earlier ∈ calls, earlier.time ≤ call.time) :
      CacheHistory p s (calls ++ [call]) u

/-! ## The table -/

/-- What an entry keeps. -/
def KVEntry.kept (entry : KVEntry) : Kept Json Instant := ⟨entry.payload, entry.expiresAt⟩

/-- What the table has under a key. -/
def held (w : World) (key : Text) : Option (Kept Json Instant) :=
  (findRow KVEntry.key key w.tables.kvCache).map KVEntry.kept

section Table

variable {s t : World} {row : KVEntry} {key : Text}

theorem held_insert (hFresh : findRow KVEntry.key row.key s.tables.kvCache = none)
    (h : t.tables = s.tables.after [.insertKVEntry row]) (other : Text) :
    held t other = (Change.put row.key row.kept).at other (held s other) := by
  have hCache : t.tables.kvCache = s.tables.kvCache ++ [row] := by
    rw [h]
    rfl
  unfold held
  rw [hCache, findRow_append, Change.at_put]
  by_cases hKey : row.key = other
  · subst hKey
    rw [hFresh, if_pos rfl]
    simp [findRow]
  · rw [if_neg hKey]
    simp [findRow, hKey]

theorem held_update (hFound : (findRow KVEntry.key row.key s.tables.kvCache).isSome)
    (h : t.tables = s.tables.after [.updateKVEntry row]) (other : Text) :
    held t other = (Change.put row.key row.kept).at other (held s other) := by
  have hCache : t.tables.kvCache =
      modifyRow KVEntry.key row.key (fun _ => row) s.tables.kvCache := by
    rw [h]
    rfl
  obtain ⟨entry, hEntry⟩ := Option.isSome_iff_exists.mp hFound
  unfold held
  rw [hCache, findRow_modifyRow (fun _ _ => rfl), Change.at_put]
  by_cases hKey : row.key = other
  · subst hKey
    rw [if_pos rfl, if_pos rfl, hEntry]
    rfl
  · rw [if_neg hKey, if_neg fun hEq => hKey hEq.symm]

theorem held_delete (h : t.tables = s.tables.after [.deleteKVEntry key]) (other : Text) :
    held t other = (Change.remove key).at other (held s other) := by
  have hCache : t.tables.kvCache = s.tables.kvCache.filter fun e => e.key ≠ key := by
    rw [h]
    rfl
  unfold held findRow
  rw [hCache, List.find?_filter, Change.at_remove]
  by_cases hKey : key = other
  · subst hKey
    rw [if_pos rfl, Option.map_eq_none_iff, List.find?_eq_none]
    intro entry hEntry
    simp
  · rw [if_neg hKey]
    congr 2
    ext entry
    by_cases hOther : entry.key = other
    · have hNe : other ≠ key := Ne.symm hKey
      simp [hOther, hNe]
    · simp [hOther]

end Table

/-! ## One call -/

section Steps

variable {p : Platform} {s t : World} {log : Log Vocabulary} {left : Action (Option Json)}

/-- A commit and the end: nothing has happened, or it is carried out. -/
theorem Exec.of_lastCommit {writes : List Write}
    (h : Exec ((commitWrites writes).bind fun _ => .done none) s log left t) :
    (t = s ∧ log.any Moment.moves = false ∧ left.returned = none) ∨
      (t.tables = s.tables.after writes ∧ log.any Moment.moves = true ∧
        ∀ reply, left.returned = some reply → reply = none) := by
  cases h with
  | refl => exact .inl ⟨rfl, rfl, rfl⟩
  | step first rest =>
      cases first with
      | commit _ _ value _ u hRun =>
          obtain ⟨rfl, rfl, rfl⟩ := Exec.of_done rest
          refine .inr ⟨applied_tables hRun, rfl, ?_⟩
          intro reply hReply
          exact (Option.some.inj hReply).symm
      | ackLost _ _ value fault _ u hRun =>
          obtain ⟨rfl, rfl, rfl⟩ := Exec.of_raise rest
          refine .inr ⟨applied_tables hRun, rfl, ?_⟩
          intro reply hReply
          cases hReply
      | reject _ _ error _ hRun =>
          obtain ⟨rfl, rfl, rfl⟩ := Exec.of_raise rest
          exact .inl ⟨rfl, rfl, rfl⟩
      | txFault _ _ fault _ =>
          obtain ⟨rfl, rfl, rfl⟩ := Exec.of_raise rest
          exact .inl ⟨rfl, rfl, rfl⟩

/-- A query in front of others: it has not come to its end, or the rest goes on. -/
theorem Exec.of_lookup {α β : Type} {f : Tables → α} {g : α → Action β} {end' : Action β}
    (h : Exec ((selectTables f).bind g) s log end' t) :
    (t = s ∧ log.any Moment.moves = false ∧ end'.returned = none) ∨
      ∃ later, log = ⟨s, .looked, s⟩ :: later ∧ Exec (g (f s.tables)) s later end' t := by
  cases h with
  | refl => exact .inl ⟨rfl, rfl, rfl⟩
  | step first rest =>
      cases first with
      | read => exact .inr ⟨_, rfl, rest⟩
      | readFault =>
          obtain ⟨rfl, rfl, rfl⟩ := Exec.of_raise rest
          exact .inl ⟨rfl, rfl, rfl⟩

/-- The last part of `set`, and what it does to the table. -/
theorem upsert_step {row : KVEntry}
    (h : Exec ((KVCache.upsert row).bind fun _ => .done none) s log left t) :
    ((∀ key, held t key = held s key) ∧ log.any Moment.moves = false ∧ left.returned = none) ∨
      (∀ key, held t key = (Change.put row.key row.kept).at key (held s key)) ∧
        log.any Moment.moves = true := by
  rw [KVCache.upsert, KVCache.entry, Prog.bind_def, Prog.bind_assoc] at h
  rcases Exec.of_lookup h with ⟨rfl, hStill, hOpen⟩ | ⟨later, rfl, hRest⟩
  · exact .inl ⟨fun _ => rfl, hStill, hOpen⟩
  · cases hEntry : findRow KVEntry.key row.key s.tables.kvCache with
    | none =>
        simp only [hEntry] at hRest
        rcases Exec.of_lastCommit hRest with ⟨rfl, hStill, hOpen⟩ | ⟨hTables, hMoves, -⟩
        · exact .inl ⟨fun _ => rfl, by simpa [Moment.moves] using hStill, hOpen⟩
        · exact .inr ⟨held_insert hEntry hTables, by simpa [Moment.moves] using hMoves⟩
    | some entry =>
        simp only [hEntry] at hRest
        rcases Exec.of_lastCommit hRest with ⟨rfl, hStill, hOpen⟩ | ⟨hTables, hMoves, -⟩
        · exact .inl ⟨fun _ => rfl, by simpa [Moment.moves] using hStill, hOpen⟩
        · have hFound : (findRow KVEntry.key row.key s.tables.kvCache).isSome := by
            rw [hEntry]
            rfl
          exact .inr ⟨held_update hFound hTables, by simpa [Moment.moves] using hMoves⟩

/-- A look-up, what it does to the table and what it returns. -/
theorem get_step {key : Text} {time : Instant} (h : Exec (KVCache.get key) s log left t)
    (hClock : ∀ m ∈ log, ∀ reading, Moment.clock m = some reading → reading = time) :
    (∀ other, Lapsed time (held t other) (held s other)) ∧
      ∀ reply, left.returned = some reply → reply = answered time (held s key) := by
  rw [KVCache.get, KVCache.entry, Prog.bind_def] at h
  rcases Exec.of_lookup h with ⟨rfl, -, hOpen⟩ | ⟨later, rfl, hRest⟩
  · refine ⟨fun other => .refl _ _, ?_⟩
    intro reply hReply
    rw [hOpen] at hReply
    cases hReply
  cases hEntry : findRow KVEntry.key key s.tables.kvCache with
  | none =>
      simp only [hEntry] at hRest
      obtain ⟨rfl, rfl, rfl⟩ := Exec.of_done hRest
      refine ⟨fun other => .refl _ _, ?_⟩
      intro reply hReply
      rw [held, hEntry]
      exact (Option.some.inj hReply).symm
  | some entry =>
      have hHeld : held s key = some entry.kept := by
        rw [held, hEntry]
        rfl
      simp only [hEntry] at hRest
      cases hExpires : entry.expiresAt with
      | none =>
          simp only [hExpires] at hRest
          obtain ⟨rfl, rfl, rfl⟩ := Exec.of_done hRest
          refine ⟨fun other => .refl _ _, ?_⟩
          intro reply hReply
          have hLive : entry.kept.live time = true := by simp [Kept.live, KVEntry.kept, hExpires]
          rw [hHeld, answered, Option.filter_some, if_pos hLive]
          exact (Option.some.inj hReply).symm
      | some expiresAt =>
          simp only [hExpires] at hRest
          rcases Exec.of_query hRest with ⟨rfl, rfl, rfl⟩ | ⟨clock, last, rfl, hLast⟩
          · exact ⟨fun other => .refl _ _, fun reply hReply => by cases hReply⟩
          change Instant at clock
          have hTime : clock = time := hClock ⟨s, .asked .now clock, s⟩ (by simp) clock rfl
          subst hTime
          have hLive : entry.kept.live clock = decide (clock < expiresAt) := by
            simp [Kept.live, KVEntry.kept, hExpires]
          by_cases hExpired : expiresAt ≤ clock
          · simp only [hExpired, if_true] at hLast
            have hDead : entry.kept.live clock = false := by
              rw [hLive]
              exact decide_eq_false (not_lt.mpr hExpired)
            have hNone : answered clock (held s key) = none := by
              rw [hHeld, answered, Option.filter_some, if_neg (by simp [hDead])]
              rfl
            rcases Exec.of_lastCommit hLast with ⟨rfl, -, hOpen⟩ | ⟨hTables, -, hReply⟩
            · refine ⟨fun other => .refl _ _, ?_⟩
              intro reply hReply
              rw [hOpen] at hReply
              cases hReply
            · constructor
              · intro other
                rw [held_delete hTables, Change.at_remove]
                by_cases hKey : key = other
                · subst hKey
                  rw [if_pos rfl]
                  exact .inr ⟨rfl, entry.kept, hHeld, hDead⟩
                · rw [if_neg hKey]
                  exact .refl _ _
              · intro reply hReturned
                rw [hNone]
                exact hReply reply hReturned
          · simp only [hExpired, if_false] at hLast
            obtain ⟨rfl, rfl, rfl⟩ := Exec.of_done hLast
            refine ⟨fun other => .refl _ _, ?_⟩
            intro reply hReply
            have hTrue : entry.kept.live clock = true := by
              rw [hLive]
              exact decide_eq_true (not_le.mp hExpired)
            rw [hHeld, answered, Option.filter_some, if_pos hTrue]
            exact (Option.some.inj hReply).symm

end Steps

theorem assertNoSecretPayload_error {p : Platform} {payload : List (Text × Json)}
    (h : ∃ entry ∈ payload, isSecretKey p.unicode entry.1 = true) :
    ∃ message, assertNoSecretPayload p payload = .error ⟨.valueError, message⟩ := by
  obtain ⟨entry, hEntry, hSecret⟩ := h
  unfold assertNoSecretPayload
  cases hFind : payload.find? fun entry => isSecretKey p.unicode entry.1 with
  | none =>
      have hClean := List.find?_eq_none.mp hFind entry hEntry
      exact absurd hSecret hClean
  | some found => exact ⟨_, rfl⟩

/-- A call whose payload has a key which looks like a secret raises at once. -/
theorem CacheOp.run_hinted {p : Platform} (op : CacheOp) (h : op.Hinted p) :
    ∃ message, op.run p = .raise ⟨.valueError, message⟩ := by
  cases op with
  | get key => cases h
  | delete key => cases h
  | set key model promptHash payload ttlSeconds =>
      obtain ⟨message, hError⟩ := assertNoSecretPayload_error h
      refine ⟨message, ?_⟩
      show (KVCache.set p key model promptHash payload ttlSeconds).bind _ = _
      rw [KVCache.set, hError]
      rfl

/-- A payload without such keys passes. -/
theorem assertNoSecretPayload_ok {p : Platform} {payload : List (Text × Json)}
    (h : ¬ ∃ entry ∈ payload, isSecretKey p.unicode entry.1 = true) :
    assertNoSecretPayload p payload = .ok () := by
  have hFind : (payload.find? fun entry => isSecretKey p.unicode entry.1) = none := by
    apply List.find?_eq_none.mpr
    intro entry hEntry hSecret
    exact h ⟨entry, hEntry, hSecret⟩
  rw [assertNoSecretPayload, hFind]

section Set

variable {p : Platform} {s t : World} {log : Log Vocabulary} {left : Action (Option Json)}
  {key model promptHash : Text} {payload : List (Text × Json)}

/-- Upsert a row without expiry, or with one which is counted from now. -/
def upsertFor (row : Option Instant → KVEntry) : Option Int → Action (Option Json)
  | none => (KVCache.upsert (row none)).bind fun _ => .done none
  | some seconds => now.bind fun clock =>
      (KVCache.upsert (row (some (clock + seconds)))).bind fun _ => .done none

/-- A `set` of which the payload has passed. -/
theorem set_passed {ttlSeconds : Option Int} (h : assertNoSecretPayload p payload = .ok ()) :
    (CacheOp.set key model promptHash payload ttlSeconds).run p =
      upsertFor (fun expiresAt => ⟨key, model, promptHash, .obj payload, expiresAt⟩) ttlSeconds := by
  show (KVCache.set p key model promptHash payload ttlSeconds).bind _ = _
  rw [KVCache.set, h]
  cases ttlSeconds with
  | none => rfl
  | some seconds => rfl

/-- A `set`, and what it does to the table. -/
theorem set_step {ttlSeconds : Option Int} {time : Instant}
    (h : Exec ((CacheOp.set key model promptHash payload ttlSeconds).run p) s log left t)
    (hClock : ∀ m ∈ log, ∀ reading, Moment.clock m = some reading → reading = time) :
    ((∀ other, held t other = held s other) ∧ log.any Moment.moves = false ∧
        left.returned = none) ∨
      (∀ other, held t other = (Change.put key
          ⟨.obj payload, ttlSeconds.map fun seconds => time + seconds⟩).at other (held s other)) ∧
        log.any Moment.moves = true := by
  by_cases hHinted : ∃ entry ∈ payload, isSecretKey p.unicode entry.1 = true
  · obtain ⟨message, hRaise⟩ :=
      CacheOp.run_hinted (.set key model promptHash payload ttlSeconds) hHinted
    rw [hRaise] at h
    obtain ⟨rfl, rfl, rfl⟩ := Exec.of_raise h
    exact .inl ⟨fun _ => rfl, rfl, rfl⟩
  rw [set_passed (assertNoSecretPayload_ok hHinted)] at h
  cases ttlSeconds with
  | none => exact upsert_step h
  | some seconds =>
      rcases Exec.of_query h with ⟨rfl, rfl, rfl⟩ | ⟨clock, later, rfl, hRest⟩
      · exact .inl ⟨fun _ => rfl, rfl, rfl⟩
      · change Instant at clock
        have hTime : clock = time := hClock ⟨s, .asked .now clock, s⟩ (by simp) clock rfl
        subst hTime
        exact upsert_step hRest

/-- A `delete`, and what it does to the table. -/
theorem delete_step (h : Exec ((CacheOp.delete key).run p) s log left t) :
    ((∀ other, held t other = held s other) ∧ log.any Moment.moves = false ∧
        left.returned = none) ∨
      ((∀ other, held t other = (Change.remove key).at other (held s other)) ∧
        (left.returned.isSome || log.any Moment.moves) = true) := by
  have hRun : (CacheOp.delete key).run p = (KVCache.delete key).bind fun _ => .done none := rfl
  rw [hRun, KVCache.delete, KVCache.entry, Prog.bind_def, Prog.bind_assoc] at h
  rcases Exec.of_lookup h with ⟨rfl, hStill, hOpen⟩ | ⟨later, rfl, hRest⟩
  · exact .inl ⟨fun _ => rfl, hStill, hOpen⟩
  cases hEntry : findRow KVEntry.key key s.tables.kvCache with
  | none =>
      -- There is nothing to remove.
      simp only [hEntry] at hRest
      obtain ⟨rfl, rfl, rfl⟩ := Exec.of_done hRest
      refine .inr ⟨?_, rfl⟩
      intro other
      rw [Change.at_remove]
      by_cases hKey : key = other
      · subst hKey
        rw [if_pos rfl, held, hEntry]
        rfl
      · rw [if_neg hKey]
  | some entry =>
      simp only [hEntry] at hRest
      rcases Exec.of_lastCommit hRest with ⟨rfl, hStill, hOpen⟩ | ⟨hTables, hMoves, -⟩
      · exact .inl ⟨fun _ => rfl, by simpa [Moment.moves] using hStill, hOpen⟩
      · refine .inr ⟨held_delete hTables, ?_⟩
        have hSome : (⟨s, .looked, s⟩ :: later : Log Vocabulary).any Moment.moves = true := by
          simpa [Moment.moves] using hMoves
        rw [hSome, Bool.or_true]

end Set

/-- One call: the table follows the map, up to expired entries. -/
theorem CacheCall.step {p : Platform} {s t : World} (call : CacheCall)
    (h : Exec (call.op.run p) s call.log call.left t)
    (hClock : ∀ m ∈ call.log, ∀ reading, Moment.clock m = some reading → reading = call.time)
    (key : Text) : Lapsed call.time (held t key) (call.change.at key (held s key)) := by
  obtain ⟨op, time, log, left⟩ := call
  dsimp only at h hClock ⊢
  cases op with
  | get other => exact (get_step h hClock).1 key
  | set other model promptHash payload ttlSeconds =>
      rcases set_step h hClock with ⟨hSame, hStill, hOpen⟩ | ⟨hPut, hMoves⟩
      · have hApplied : (CacheCall.mk (.set other model promptHash payload ttlSeconds) time log
            left).applied = false := by simp [CacheCall.applied, hStill, hOpen]
        rw [CacheCall.change, hApplied]
        exact .inl (hSame key)
      · have hApplied : (CacheCall.mk (.set other model promptHash payload ttlSeconds) time log
            left).applied = true := by simp only [CacheCall.applied, hMoves, Bool.or_true]
        rw [CacheCall.change, hApplied]
        exact .inl (hPut key)
  | delete other =>
      rcases delete_step h with ⟨hSame, hStill, hOpen⟩ | ⟨hRemoved, hDone⟩
      · have hApplied : (CacheCall.mk (.delete other) time log left).applied = false := by
          simp [CacheCall.applied, hStill, hOpen]
        rw [CacheCall.change, hApplied]
        exact .inl (hSame key)
      · have hApplied : (CacheCall.mk (.delete other) time log left).applied = true := hDone
        rw [CacheCall.change, hApplied]
        exact .inl (hRemoved key)

/-! ## Many calls -/

section Histories

variable {p : Platform} {s t : World} {calls past later : List CacheCall} {call : CacheCall}

/-- The last call of a history. -/
theorem CacheHistory.of_snoc (h : CacheHistory p s (calls ++ [call]) t) :
    ∃ u, CacheHistory p s calls u ∧ Exec (call.op.run p) u call.log call.left t ∧
      (∀ m ∈ call.log, ∀ reading, Moment.clock m = some reading → reading = call.time) ∧
      ∀ earlier ∈ calls, earlier.time ≤ call.time := by
  generalize hAll : calls ++ [call] = all at h
  cases h with
  | nil => simp at hAll
  | snoc front other last hClock hLater =>
      obtain ⟨rfl, hOne⟩ := List.append_inj' hAll rfl
      obtain rfl := (List.cons.inj hOne).1
      exact ⟨_, front, last, hClock, hLater⟩

/-- A call in the middle of a history. -/
theorem CacheHistory.split (h : CacheHistory p s (past ++ call :: later) t) :
    ∃ u v, CacheHistory p s past u ∧ Exec (call.op.run p) u call.log call.left v ∧
      (∀ m ∈ call.log, ∀ reading, Moment.clock m = some reading → reading = call.time) ∧
      ∀ earlier ∈ past, earlier.time ≤ call.time := by
  induction later using List.reverseRecOn generalizing t with
  | nil =>
      obtain ⟨u, hPast, hRest⟩ := CacheHistory.of_snoc h
      exact ⟨u, t, hPast, hRest⟩
  | append_singleton later last ih =>
      rw [← List.cons_append, ← List.append_assoc] at h
      obtain ⟨u, hFront, -⟩ := CacheHistory.of_snoc h
      exact ih hFront

/-- Without a call which has left no trace the others are as they were. -/
theorem CacheHistory.without (h : CacheHistory p s (past ++ call :: later) t)
    (hStill : ∀ u v, Exec (call.op.run p) u call.log call.left v → v = u) :
    CacheHistory p s (past ++ later) t := by
  induction later using List.reverseRecOn generalizing t with
  | nil =>
      obtain ⟨u, hPast, hLast, -⟩ := CacheHistory.of_snoc h
      rw [hStill u t hLast, List.append_nil]
      exact hPast
  | append_singleton later last ih =>
      rw [← List.cons_append, ← List.append_assoc] at h
      obtain ⟨u, hFront, hLast, hClock, hLater⟩ := CacheHistory.of_snoc h
      rw [← List.append_assoc]
      apply CacheHistory.snoc (ih hFront) last hLast hClock
      intro earlier hEarlier
      apply hLater earlier
      rcases List.mem_append.mp hEarlier with hPast | hNow
      · exact List.mem_append_left _ hPast
      · exact List.mem_append_right _ (List.mem_cons_of_mem _ hNow)

/-- After any calls the table follows the map, up to expired entries. -/
theorem CacheHistory.lapsed (h : CacheHistory p s calls t) (hEmpty : s.tables.kvCache = [])
    {time : Instant} (hTimes : ∀ call ∈ calls, call.time ≤ time) (key : Text) :
    Lapsed time (held t key) (remembered key (calls.map CacheCall.change)) := by
  induction h generalizing time with
  | nil =>
      left
      simp [held, hEmpty, findRow, remembered]
  | @snoc u v calls past call last hClock hLater ih =>
      -- The table before the call, at the time of the call.
      have hBefore := (ih hLater).at key call.change
      have hStep := call.step last hClock key
      have hNow := hStep.trans hBefore
      rw [List.map_append, List.map_cons, List.map_nil, remembered_snoc]
      exact hNow.mono (hTimes call (by simp))

end Histories

/-- The cache is a map with expiry.  In a sequence of calls which begins with an empty table, a
`get` returns the payload which was put last under its key, if it was not removed since and has not
expired, and nothing otherwise; and a `set` whose payload has a key which looks like a secret raises
`ValueError` and can be left out. -/
theorem cache_refines {p : Platform} {s t : World} {past later : List CacheCall} {call : CacheCall}
    (hEmpty : s.tables.kvCache = []) (h : CacheHistory p s (past ++ call :: later) t) :
    (∀ key, call.op = .get key →
      (∀ reply, call.left = .done reply → ∀ payload, reply = some payload ↔
        ∃ kept, LastPut key (past.map CacheCall.change) kept ∧ kept.live call.time = true ∧
          kept.value = payload) ∧
      ∀ error, call.left = .raise error → IsDbError error) ∧
    (call.op.Hinted p → (∃ message, call.left = .raise ⟨.valueError, message⟩) ∧
      CacheHistory p s (past ++ later) t) := by
  obtain ⟨u, v, hPast, hCall, hClock, hLater⟩ := h.split
  constructor
  · intro key hOp
    rw [hOp] at hCall
    constructor
    · intro reply hReply payload
      have hAnswer := (get_step hCall hClock).2 reply (by rw [hReply]; rfl)
      have hMap := hPast.lapsed hEmpty hLater key
      rw [hAnswer, hMap.answered_eq, answered_iff]
      simp only [remembered_iff]
    · intro error hRaise
      rw [hRaise] at hCall
      exact (kvGet_raises key).exec hCall
  · intro hHinted
    obtain ⟨message, hRaise⟩ := CacheOp.run_hinted call.op hHinted
    rw [hRaise] at hCall
    obtain ⟨-, hLeft, -⟩ := Exec.of_raise hCall
    refine ⟨⟨message, hLeft⟩, h.without ?_⟩
    intro w x hExec
    rw [hRaise] at hExec
    obtain ⟨-, -, hSame⟩ := Exec.of_raise hExec
    exact hSame

/-! ## Concrete calls -/

/-- A call at the time zero, in a state. -/
def servedOp (op : CacheOp) (s : World) : CacheCall :=
  let run := simulate (quietOutside fun _ => .grant) 20 0 (op.run ({} : Served).platform) s
  ⟨op, 0, run.1, run.2.1⟩

/-- The state after it. -/
def afterOp (op : CacheOp) (s : World) : World :=
  (simulate (quietOutside fun _ => .grant) 20 0 (op.run ({} : Served).platform) s).2.2

theorem servedOp_snoc {s t : World} {calls : List CacheCall} (op : CacheOp)
    (past : CacheHistory ({} : Served).platform s calls t)
    (hClock : ((servedOp op t).log.all fun m => (Moment.clock m).all fun reading => reading = 0) = true)
    (hTimes : (calls.all fun call => call.time ≤ 0) = true) :
    CacheHistory ({} : Served).platform s (calls ++ [servedOp op t]) (afterOp op t) := by
  apply CacheHistory.snoc past (servedOp op t) (simulate_exec _ _ _ _ _)
  · intro m hm reading hReading
    have hAll := List.all_eq_true.mp hClock m hm
    rw [hReading, Option.all_some, decide_eq_true_eq] at hAll
    exact hAll
  · intro earlier hEarlier
    exact of_decide_eq_true (List.all_eq_true.mp hTimes earlier hEarlier)

/-- A payload for ten seconds. -/
def briefly : CacheOp :=
  .set "k".toList "m".toList "h".toList [("answer".toList, .str "a".toList)] (some 10)

/-- A payload with a key which looks like a secret. -/
def hinting : CacheOp :=
  .set "k".toList "m".toList "h".toList [("api_key".toList, .str "b".toList)] none

/-- An accepted payload, a rejected one, and a look-up which finds the first. -/
theorem cache_refines_briefly :
    ∃ payload kept, (servedOp (.get "k".toList) (afterOp hinting (afterOp briefly
        (World.submitted 1)))).left = .done (some payload) ∧
      LastPut "k".toList [(servedOp briefly (World.submitted 1)).change,
        (servedOp hinting (afterOp briefly (World.submitted 1))).change] kept ∧
      kept.value = payload := by
  have hFirst := servedOp_snoc briefly (.nil (s := World.submitted 1)) (by decide)
    (by decide)
  have hSecond := servedOp_snoc hinting hFirst (by decide) (by decide)
  have hThird := servedOp_snoc (.get "k".toList) hSecond (by decide +kernel)
    (by decide)
  have hFound : (servedOp (.get "k".toList) (afterOp hinting (afterOp briefly
      (World.submitted 1)))).left.returned.join.isSome = true := by decide +kernel
  obtain ⟨payload, hPayload⟩ := Option.isSome_iff_exists.mp hFound
  have hDone := Prog.eq_done (Option.join_eq_some_iff.mp hPayload)
  obtain ⟨hGet, -⟩ := @cache_refines _ _ _ _ [] _ submitted_cache hThird
  obtain ⟨kept, hKept, -, hValue⟩ := ((hGet "k".toList rfl).1 _ hDone payload).mp rfl
  exact ⟨payload, kept, hDone, hKept, hValue⟩

end Ecrke
