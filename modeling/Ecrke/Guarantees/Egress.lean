import Ecrke.Durable.Footprints
import Ecrke.Pipeline.RunHistory
import Mathlib.Algebra.Order.BigOperators.Group.List

/-!
# Default-deny egress

The allowlist is the only gate between the service and the network.

* `UnderDomain`, `Granted` -- what an allowlist is there to let pass: a host which some entry with a
  non-empty normal form names, or one of its subdomains.
* `allows_iff` -- what it does let pass.
* `Gated`, `fetch_gated`, `runCollect_gated` -- no request leaves without the test.
* `defaultDeny_iff` -- the lists of entries for which the gate denies by default.
-/

namespace Ecrke

open Durable

/-! ## Domains -/

/-- A host is a domain or one of its subdomains. -/
def UnderDomain (domain host : Text) : Prop :=
  host = domain ∨ ∃ labels, host = labels ++ '.' :: domain

/-- The host of a URI, as the gate reads it. -/
def uriHost (p : Platform) (uri : Text) : Option Text :=
  (p.urlparse uri).map fun parsed => Text.lower p.unicode (parsed.hostname.getD [])

/-- Some entry with a non-empty normal form names the host or a domain above it. -/
def Granted (u : Unicode) (entries : List Text) (host : Text) : Prop :=
  ∃ entry ∈ entries, normalizeDomain u entry ≠ [] ∧
    UnderDomain (normalizeDomain u entry) (Text.lower u (Text.strip host))

/-- The entries of the setting `ALLOWED_DOMAINS`. -/
def Settings.allowlistEntries (settings : Settings) : List Text :=
  ((splitCommas settings.allowedDomains).map Text.strip).filter fun d => !d.isEmpty

theorem mem_domains {u : Unicode} {entries : List Text} {domain : Text} :
    domain ∈ Allowlist.domains u entries ↔
      ∃ entry ∈ entries, Text.strip entry ≠ [] ∧ normalizeDomain u entry = domain := by
  simp only [Allowlist.domains, List.mem_mergeSort, List.mem_dedup, List.mem_map, List.mem_filter,
    Bool.not_eq_true', List.isEmpty_eq_false_iff, and_assoc]

theorem endsWith_dot_iff {domain host : Text} :
    Text.endsWith ('.' :: domain) host = true ↔ ∃ labels, host = labels ++ '.' :: domain := by
  rw [Text.endsWith, List.isSuffixOf_iff_suffix]
  constructor
  · rintro ⟨labels, h⟩
    exact ⟨labels, h.symm⟩
  · rintro ⟨labels, rfl⟩
    exact ⟨labels, rfl⟩

/-- What the gate lets pass. -/
theorem allows_iff {u : Unicode} {entries : List Text} {host : Text} :
    Allowlist.allows u (Allowlist.domains u entries) host = true ↔
      Text.lower u (Text.strip host) ≠ [] ∧
        ∃ entry ∈ entries, Text.strip entry ≠ [] ∧
          UnderDomain (normalizeDomain u entry) (Text.lower u (Text.strip host)) := by
  simp only [Allowlist.allows, Bool.and_eq_true, Bool.not_eq_true', List.isEmpty_eq_false_iff,
    List.any_eq_true, Bool.or_eq_true, decide_eq_true_eq, endsWith_dot_iff]
  refine and_congr_right fun hHost => ?_
  constructor
  · rintro ⟨domain, hMem, hUnder⟩
    obtain ⟨entry, hEntry, hStrip, rfl⟩ := mem_domains.mp hMem
    exact ⟨entry, hEntry, hStrip, hUnder⟩
  · rintro ⟨entry, hEntry, hStrip, hUnder⟩
    exact ⟨_, mem_domains.mpr ⟨entry, hEntry, hStrip, rfl⟩, hUnder⟩

/-- An entry with a non-empty normal form is not blank. -/
theorem strip_ne_nil {u : Unicode} {entry : Text} (h : normalizeDomain u entry ≠ []) :
    Text.strip entry ≠ [] := by
  intro hStrip
  apply h
  rw [normalizeDomain, hStrip]
  rfl

/-- A host which is granted by name passes. -/
theorem Granted.allows {u : Unicode} {entries : List Text} {host : Text}
    (h : Granted u entries host) :
    Allowlist.allows u (Allowlist.domains u entries) host = true := by
  obtain ⟨entry, hEntry, hNormal, hUnder⟩ := h
  rw [allows_iff]
  refine ⟨?_, entry, hEntry, strip_ne_nil hNormal, hUnder⟩
  intro hHost
  rw [hHost] at hUnder
  rcases hUnder with hEq | ⟨labels, hEq⟩
  · exact hNormal hEq.symm
  · simp at hEq

/-- Every entry which is not blank has a non-empty normal form. -/
def Named (u : Unicode) (entries : List Text) : Prop :=
  ∀ entry ∈ entries, normalizeDomain u entry = [] → Text.strip entry = []

theorem Named.granted {u : Unicode} {entries : List Text} (h : Named u entries) {host : Text}
    (hAllows : Allowlist.allows u (Allowlist.domains u entries) host = true) :
    Granted u entries host := by
  rw [allows_iff] at hAllows
  obtain ⟨-, entry, hEntry, hStrip, hUnder⟩ := hAllows
  exact ⟨entry, hEntry, fun hNormal => hStrip (h entry hEntry hNormal), hUnder⟩

/-- The entries which have a non-empty normal form. -/
def namingEntries (u : Unicode) (entries : List Text) : List Text :=
  entries.filter fun entry => !(normalizeDomain u entry).isEmpty

theorem granted_namingEntries {u : Unicode} {entries : List Text} {host : Text} :
    Granted u (namingEntries u entries) host ↔ Granted u entries host := by
  simp only [Granted, namingEntries, List.mem_filter, Bool.not_eq_true',
    List.isEmpty_eq_false_iff]
  constructor
  · rintro ⟨entry, ⟨hEntry, -⟩, hNormal, hUnder⟩
    exact ⟨entry, hEntry, hNormal, hUnder⟩
  · rintro ⟨entry, hEntry, hNormal, hUnder⟩
    exact ⟨entry, ⟨hEntry, hNormal⟩, hNormal, hUnder⟩

theorem named_namingEntries (u : Unicode) (entries : List Text) :
    Named u (namingEntries u entries) := by
  intro entry hEntry hNormal
  have hNaming := (List.mem_filter.mp hEntry).2
  simp [hNormal] at hNaming

/-- A host outside all domains which are named, with a dot at its end. -/
def strangeHost (u : Unicode) (entries : List Text) : Text :=
  List.replicate ((entries.map fun entry => (normalizeDomain u entry).length).sum + 1) 'a' ++ ['.']

theorem strangeHost_normal (u : Unicode) (entries : List Text) :
    Text.lower u (Text.strip (strangeHost u entries)) = strangeHost u entries := by
  have hStrip : Text.strip (strangeHost u entries) = strangeHost u entries := by
    have hFront : (strangeHost u entries).dropWhile Text.isSpace = strangeHost u entries := by
      rw [strangeHost, List.replicate_succ, List.cons_append, List.dropWhile_cons_of_neg]
      decide
    have hBack : (strangeHost u entries).reverse.dropWhile Text.isSpace =
        (strangeHost u entries).reverse := by
      rw [strangeHost, List.reverse_append, List.reverse_singleton, List.singleton_append,
        List.dropWhile_cons_of_neg]
      decide
    rw [Text.strip, hFront, hBack, List.reverse_reverse]
  have hLower (n : Nat) :
      Text.lower u (List.replicate n 'a' ++ ['.']) = List.replicate n 'a' ++ ['.'] := by
    induction n with
    | zero => rfl
    | succ n ih =>
        rw [List.replicate_succ, List.cons_append, Text.lower, List.flatMap_cons]
        exact congrArg ('a' :: ·) ih
  rw [hStrip]
  exact hLower _

/-- No entry with a non-empty normal form names the strange host. -/
theorem not_granted_strangeHost (u : Unicode) (entries : List Text) :
    ¬ Granted u entries (strangeHost u entries) := by
  rintro ⟨entry, hEntry, hNormal, hUnder⟩
  rw [strangeHost_normal] at hUnder
  rcases hUnder with hEq | ⟨labels, hEq⟩
  · have hLength := congrArg List.length hEq
    have hSmall : (normalizeDomain u entry).length ≤
        (entries.map fun entry => (normalizeDomain u entry).length).sum :=
      List.le_sum_of_mem (List.mem_map_of_mem hEntry)
    simp only [strangeHost, List.length_append, List.length_replicate,
      List.length_singleton] at hLength
    omega
  · -- The only dot stands at the end, so nothing can follow it.
    rw [← List.dropLast_append_getLast hNormal, ← List.cons_append, ← List.append_assoc] at hEq
    have hFront := (List.append_inj' hEq rfl).1
    have hDot : '.' ∈ List.replicate
        ((entries.map fun entry => (normalizeDomain u entry).length).sum + 1) 'a' := by
      rw [hFront]
      simp
    have hChar := List.eq_of_mem_replicate hDot
    revert hChar
    decide

/-- An entry which is not blank and has an empty normal form lets the strange host pass. -/
theorem allows_strangeHost {u : Unicode} {entries : List Text} (h : ¬ Named u entries) :
    Allowlist.allows u (Allowlist.domains u entries) (strangeHost u entries) = true := by
  unfold Named at h
  push Not at h
  obtain ⟨entry, hEntry, hNormal, hStrip⟩ := h
  refine allows_iff.mpr ⟨?_, entry, hEntry, hStrip, ?_⟩
  · rw [strangeHost_normal]
    simp [strangeHost]
  · rw [strangeHost_normal, hNormal]
    exact .inr ⟨_, rfl⟩

/-! ## Requests -/

/-- A question to the outside world which is no request for a host that is not granted. -/
def Gated (p : Platform) (settings : Settings) : Query → Prop
  | .httpGet uri =>
      ∃ host, uriHost p uri = some host ∧ Granted p.unicode settings.allowlistEntries host
  | _ => True

section Requests

variable {p : Platform} {settings : Settings}

theorem check_granted (hNamed : Named p.unicode settings.allowlistEntries) {uri : Text}
    (h : Allowlist.check p (Allowlist.fromSettings p.unicode settings) uri = .ok ()) :
    Gated p settings (.httpGet uri) := by
  unfold Allowlist.check at h
  cases hParsed : p.urlparse uri with
  | none => simp [hParsed] at h
  | some parsed =>
      simp only [hParsed] at h
      split at h
      · cases h
      · rename_i hPass
        simp only [Bool.or_eq_true, Bool.not_eq_true', not_or, Bool.not_eq_false] at hPass
        exact ⟨_, by rw [uriHost, hParsed]; rfl, hNamed.granted hPass.2⟩

/-- A program which is not about the network. -/
abbrev Gates (p : Platform) (settings : Settings) {α : Type} (program : Action α) : Prop :=
  Keeps (Asks (S := Vocabulary) (Gated p settings)) program

theorem gates_awaitRateLimit (connector : Text) :
    Gates p settings (awaitRateLimit settings connector) := by
  refine keeps_bind (asks_query trivial) fun _ => keeps_bind asks_atomically fun last => ?_
  cases last with
  | none => exact keeps_done _
  | some last => exact keeps_ite (fun _ => asks_query trivial) fun _ => keeps_done _

theorem gates_fetchFile (uri connector : Text) :
    Gates p settings (fetchFile p uri connector) := by
  refine keeps_bind (asks_query trivial) fun answer => keeps_bind (keeps_ofExcept _) fun found => ?_
  cases found with
  | none => exact keeps_raise _
  | some content =>
      exact keeps_bind (asks_query trivial) fun _ => keeps_bind asks_atomically fun _ =>
        keeps_bind (asks_query trivial) fun _ => keeps_done _

theorem gates_fetchHttp {uri : Text} (connector : Text) (h : Gated p settings (.httpGet uri)) :
    Gates p settings (fetchHttp p uri connector) := by
  refine keeps_bind (asks_query h) fun answer => ?_
  cases (answer : Except Text HttpResponse) with
  | error message => exact keeps_raise _
  | ok response =>
      refine keeps_bind (asks_query trivial) fun _ => keeps_bind asks_atomically fun _ => ?_
      exact keeps_ite (fun _ => keeps_raise _) fun _ =>
        keeps_bind (asks_query trivial) fun _ => keeps_done _

/-- `Fetcher.fetch` starts no request which is not granted. -/
theorem fetch_gated (hNamed : Named p.unicode settings.allowlistEntries) (uri connector : Text) :
    Gates p settings (fetch p settings uri connector) := by
  have hFetch (h : ¬ Text.startsWith fileScheme uri = true → Gated p settings (.httpGet uri)) :
      Gates p settings (do
        awaitRateLimit settings connector
        if Text.startsWith fileScheme uri then fetchFile p uri connector
        else fetchHttp p uri connector) :=
    keeps_bind (gates_awaitRateLimit connector) fun _ =>
      keeps_ite (fun _ => gates_fetchFile uri connector) fun hScheme =>
        gates_fetchHttp connector (h hScheme)
  refine keeps_ite (fun hFile => hFetch fun hScheme => absurd hFile hScheme) fun _ => ?_
  cases hCheck : Allowlist.check p (Allowlist.fromSettings p.unicode settings) uri with
  | error error => exact keeps_raise _
  | ok passed => exact hFetch fun _ => check_granted hNamed hCheck

theorem gates_recordSource (ctx : PipelineContext) (outcome : CollectOutcome) :
    Gates p settings (recordSource ctx outcome) := by
  refine keeps_bind (asks_query trivial) fun _ => keeps_bind ?_ fun _ => asks_commit
  exact keeps_bind (keeps_ofExcept _) fun _ => keeps_bind (asks_query trivial) fun _ =>
    keeps_bind (asks_query trivial) fun _ => keeps_done _

theorem gates_storeContent (ctx : PipelineContext) (hash : Text) (content : Bytes)
    (state : Collected) : Gates p settings (storeContent ctx hash content state) := by
  refine keeps_bind (asks_query trivial) fun sourceId => ?_
  split
  · exact keeps_done _
  · refine keeps_bind ?_ fun _ => keeps_done _
    exact keeps_bind asks_select fun _ => keeps_ite (fun _ => keeps_done _) fun _ => asks_commit

theorem gates_recordContent (ctx : PipelineContext) (uri : Text) (content : FetchedContent)
    (state : Collected) : Gates p settings (recordContent ctx uri content state) := by
  refine keeps_ite (fun _ => ?_) fun _ => ?_
  · exact keeps_bind (gates_recordSource _ _) fun _ => keeps_done _
  · exact keeps_bind (gates_storeContent _ _ _ _) fun _ =>
      keeps_bind (gates_recordSource _ _) fun _ => keeps_done _

theorem gates_collectUri (ctx : PipelineContext)
    (hNamed : Named ctx.services.platform.unicode ctx.services.settings.allowlistEntries)
    (uri : Text) (state : Collected) :
    Gates ctx.services.platform ctx.services.settings (collectUri ctx uri state) := by
  refine keeps_bind (keeps_ofExcept _) fun admitted => ?_
  cases admitted with
  | some reason => exact keeps_bind (gates_recordSource _ _) fun _ => keeps_done _
  | none =>
      refine keeps_bind ?_ fun fetched => ?_
      · refine keeps_tryCatch ?_ fun error => keeps_ite (fun _ => keeps_done _) fun _ =>
          keeps_raise _
        exact keeps_bind (fetch_gated hNamed uri _) fun _ => keeps_done _
      · cases fetched with
        | error reason => exact keeps_bind (gates_recordSource _ _) fun _ => keeps_done _
        | ok content => exact gates_recordContent _ _ _ _

/-- The collect stage starts no request which is not granted. -/
theorem runCollect_gated (ctx : PipelineContext)
    (hNamed : Named ctx.services.platform.unicode ctx.services.settings.allowlistEntries) :
    Gates ctx.services.platform ctx.services.settings (runCollect ctx) := by
  refine keeps_bind asks_select fun searchState => keeps_bind (keeps_ofExcept _) fun urls => ?_
  refine keeps_bind asks_select fun existing => keeps_bind ?_ fun _ => keeps_done _
  refine keeps_foldlM (fun state url _ => ?_) _
  split
  · exact keeps_ite (fun _ => keeps_done _) fun _ => gates_collectUri ctx hNamed _ _
  · exact keeps_raise _

end Requests

/-! ## Default deny -/

/-- The gate denies by default: it lets pass only what an entry names, entries without a name grant
nothing, and no request leaves the service for a host which is not granted. -/
structure DefaultDeny (p : Platform) (entries : List Text) : Prop where
  named : ∀ host, Allowlist.allows p.unicode (Allowlist.domains p.unicode entries) host = true →
    Granted p.unicode entries host
  nameless : ∀ host, Allowlist.allows p.unicode (Allowlist.domains p.unicode entries) host =
    Allowlist.allows p.unicode (Allowlist.domains p.unicode (namingEntries p.unicode entries)) host
  fetch : ∀ settings : Settings, settings.allowlistEntries = entries → ∀ uri connector s log left t,
    Exec (fetch p settings uri connector) s log left t →
      ∀ m ∈ log, ∀ requested, m.question = some (.httpGet requested) →
        ∃ host, uriHost p requested = some host ∧ Granted p.unicode entries host
  collect : ∀ ctx : PipelineContext, ctx.services.platform = p →
    ctx.services.settings.allowlistEntries = entries → ∀ s log left t,
      Exec (runCollect ctx) s log left t →
        ∀ m ∈ log, ∀ requested, m.question = some (.httpGet requested) →
          ∃ host, uriHost p requested = some host ∧ Granted p.unicode entries host

/-- The gate denies by default exactly for the lists in which every entry is blank or has a
non-empty normal form. -/
theorem defaultDeny_iff (p : Platform) (entries : List Text) :
    DefaultDeny p entries ↔
      ∀ entry ∈ entries, normalizeDomain p.unicode entry = [] → Text.strip entry = [] := by
  constructor
  · intro h
    by_contra hNamed
    exact not_granted_strangeHost p.unicode entries (h.named _ (allows_strangeHost hNamed))
  · intro hNamed
    refine ⟨fun host => Named.granted hNamed, fun host => ?_, ?_, ?_⟩
    · rw [Bool.eq_iff_iff]
      constructor
      · intro hAllows
        exact (granted_namingEntries.mpr (Named.granted hNamed hAllows)).allows
      · intro hAllows
        exact (granted_namingEntries.mp
          ((named_namingEntries p.unicode entries).granted hAllows)).allows
    · rintro settings rfl uri connector s log left t hExec m hm requested hRequest
      exact (hExec.keeps (fetch_gated hNamed uri connector)).1 m hm _ hRequest
    · rintro ctx rfl rfl s log left t hExec m hm requested hRequest
      exact (hExec.keeps (runCollect_gated ctx hNamed)).1 m hm _ hRequest

/-- With the one entry `*`, which names nothing, a host with a dot at its end passes. -/
theorem defaultDeny_fails :
    Allowlist.allows Platform.plain.unicode
        (Allowlist.domains Platform.plain.unicode ["*".toList]) "evil.example.".toList = true ∧
      ¬ Granted Platform.plain.unicode ["*".toList] "evil.example.".toList ∧
      ¬ DefaultDeny Platform.plain ["*".toList] := by
  refine ⟨?_, ?_, ?_⟩
  · exact allows_iff.mpr ⟨by decide, "*".toList, by simp, by decide,
      .inr ⟨"evil.example".toList, by decide⟩⟩
  · rintro ⟨entry, hEntry, hNormal, -⟩
    obtain rfl := List.mem_singleton.mp hEntry
    exact hNormal (by decide)
  · rw [defaultDeny_iff]
    intro hNamed
    have hBlank := hNamed "*".toList (by simp) (by decide)
    revert hBlank
    decide

end Ecrke
