import Ecrke.Pipeline.RunHistory
import Ecrke.Services.Redaction
import Ecrke.Text.Replacement

/-!
# Redaction and the limits of texts

A replacement may be longer than the secret which it stands for, so redaction may carry a text over
a limit which it has kept before.

* `Fits` -- the replacements leave a text within a limit.
* `lengthened_short` -- only passwords of fewer than ten characters, name included, get longer.
* `redaction_fits_iff` -- the outputs of the model which pass the checks behind redaction.
-/

namespace Ecrke

open Durable Regex

/-! ## The length of a redacted text -/

/-- What redaction finds in a text, each piece with its replacement. -/
def secretsIn (u : Unicode) (text : Text) : List (Text × Text) := found (secretPatterns u) text

/-- The text is within the limit when every secret in it counts as its replacement. -/
def Fits (u : Unicode) (limit : Nat) (text : Text) : Prop :=
  (text.length : Int) + growth (secretsIn u text) ≤ limit

section Lengths

variable {u : Unicode} {text : Text} {limit : Nat}

theorem length_redactSecrets :
    ((redactSecrets u text).length : Int) = text.length + growth (secretsIn u text) :=
  length_foldl_sub (secretPatterns u) text

theorem fits_iff : Fits u limit text ↔ (redactSecrets u text).length ≤ limit := by
  have hLength := @length_redactSecrets u text
  unfold Fits
  omega

/-- Only a password gets longer, and only one of fewer than ten characters. -/
theorem lengthened_short {piece : Text × Text} (h : piece ∈ secretsIn u text)
    (hLonger : piece.1.length < piece.2.length) :
    piece.2 = "[REDACTED]".toList ∧ piece.1.length < 10 := by
  obtain ⟨entry, hEntry, hReplacement, behind, ahead, hTakes⟩ := mem_found h
  have hShortest := hTakes.shortest_le
  rw [← hReplacement] at hLonger ⊢
  have hKeys : ∀ entry ∈ (secretPatterns u).take 4,
      entry.2.length = 18 ∧ 19 ≤ entry.1.shortest := by
    have hOpenAi : (openAiPattern u).shortest = 19 := rfl
    have hGoogle : (googlePattern u).shortest = 24 := rfl
    have hGitHub : (gitHubPattern u).shortest = 24 := rfl
    have hAws : (awsPattern u).shortest = 20 := rfl
    simp [secretPatterns, hOpenAi, hGoogle, hGitHub, hAws]
  rcases List.mem_append.mp ((List.take_append_drop 4 (secretPatterns u)).symm ▸ hEntry) with
    hKey | hPassword
  · obtain ⟨hEighteen, hNineteen⟩ := hKeys entry hKey
    omega
  · obtain rfl := List.mem_singleton.mp hPassword
    exact ⟨rfl, hLonger⟩

theorem redactSecrets_ne_nil (h : text ≠ []) : redactSecrets u text ≠ [] := by
  refine foldl_sub_ne_nil ?_ h
  simp only [secretPatterns, List.forall_mem_cons]
  decide

end Lengths

/-! ## The checks behind redaction -/

/-- `append` raises on the entry: some execution of it ends in an exception. -/
def AppendRaises (p : Platform) (entry : AuditEntry) : Prop :=
  ∃ s log error t, Exec (auditAppend p entry) s log (.raise error) t

theorem appendRaises_iff {p : Platform} {entry : AuditEntry} :
    AppendRaises p entry ↔ entry.check ≠ .ok () := by
  constructor
  · rintro ⟨s, log, error, t, hExec⟩ hCheck
    unfold auditAppend at hExec
    simp only [hCheck, Prog.ofExcept, Prog.bind_def, Prog.bind] at hExec
    rcases Exec.of_query hExec with ⟨-, hLeft, -⟩ | ⟨id, later, -, hRest⟩
    · cases hLeft
    · rcases Exec.of_query hRest with ⟨-, hLeft, -⟩ | ⟨ts, last, -, hLast⟩
      · cases hLeft
      · obtain ⟨-, hLeft, -⟩ := Exec.of_done hLast
        cases hLeft
  · intro hCheck
    cases hResult : entry.check with
    | ok value => exact absurd hResult hCheck
    | error error =>
        have hRaise : auditAppend p entry = .raise error := by
          unfold auditAppend
          rw [hResult]
          rfl
        exact ⟨World.submitted 1, [], error, World.submitted 1, hRaise ▸ .refl _ _⟩

/-- An entry whose reason has been redacted. -/
theorem appendRaises_redacted {p : Platform} {u : Unicode} {entry : AuditEntry} {text : Text}
    (h : entry.Labelled) (hReason : entry.reason = some (redactSecrets u text)) :
    AppendRaises p entry ↔ ¬ Fits u maxReasonLen text := by
  rw [appendRaises_iff, fits_iff, Ne, AuditEntry.check_iff h hReason]

/-! ## Plans -/

/-- The fields of a plan, each list with its texts in order. -/
def planTexts (plan : ResearchPlan) : List Text :=
  plan.topic.val :: (plan.subQuestions.val ++ plan.hypotheses.val ++ plan.taxonomyHints.val ++
    plan.sourceDomainHints.val).map BoundedText.val

theorem check_isSome {least most : Nat} {text : Text} :
    (BoundedText.check least most text).isSome ↔ least ≤ text.length ∧ text.length ≤ most := by
  unfold BoundedText.check
  split <;> simp_all

/-- A redacted text keeps the lower bound, so it is accepted just if it fits. -/
theorem check_redacted {u : Unicode} {most : Nat} (text : BoundedText 1 most) :
    (BoundedText.check 1 most (redactSecrets u text.val)).isSome ↔ Fits u most text.val := by
  have hText : text.val ≠ [] := by
    intro hNil
    have hLeast := text.least_le
    rw [hNil] at hLeast
    simp at hLeast
  have hPositive := List.length_pos_iff.mpr (@redactSecrets_ne_nil u _ hText)
  rw [check_isSome, fits_iff]
  omega

theorem mapM_isSome {α β : Type} {f : α → Option β} {items : List α} :
    (items.mapM f).isSome ↔ ∀ item ∈ items, (f item).isSome := by
  induction items with
  | nil => simp
  | cons item rest ih =>
      rw [List.mapM_cons, List.forall_mem_cons, ← ih]
      cases f item with
      | none => simp
      | some value => cases rest.mapM f <;> simp

theorem length_mapM {α β : Type} {f : α → Option β} {items : List α} {values : List β}
    (h : items.mapM f = some values) : values.length = items.length := by
  induction items generalizing values with
  | nil =>
      obtain rfl : [] = values := by simpa using h
      rfl
  | cons item rest ih =>
      rw [List.mapM_cons] at h
      cases hItem : f item with
      | none => simp [hItem] at h
      | some value =>
          cases hRest : rest.mapM f with
          | none => simp [hItem, hRest] at h
          | some others =>
              obtain rfl : value :: others = values := by simpa [hItem, hRest] using h
              simp [ih hRest]

theorem redactBounded_isSome {u : Unicode} {most low high : Nat}
    (texts : BoundedList (BoundedText 1 most) low high) :
    (redactBounded u texts).isSome ↔ ∀ text ∈ texts.val, Fits u most text.val := by
  have hAll : (∀ text ∈ texts.val, Fits u most text.val) ↔
      (texts.val.mapM fun text => BoundedText.check 1 most (redactSecrets u text.val)).isSome := by
    rw [mapM_isSome]
    exact forall₂_congr fun text _ => (check_redacted text).symm
  rw [hAll, redactBounded]
  cases hTexts : texts.val.mapM fun text => BoundedText.check 1 most (redactSecrets u text.val) with
  | none => rfl
  | some found =>
      -- The list has as many texts as before.
      have hLength := length_mapM hTexts
      have hLow := texts.least_le
      have hHigh := texts.le_most
      simp [BoundedList.check, hLength, hLow, hHigh]

/-- A plan passes its validation again just if all its texts fit. -/
theorem redactPlan_ok_iff {u : Unicode} {plan : ResearchPlan} :
    (∃ redacted, redactPlan u plan = .ok redacted) ↔ ∀ text ∈ planTexts plan, Fits u 500 text := by
  have hTexts : (∀ text ∈ planTexts plan, Fits u 500 text) ↔
      (BoundedText.check 1 500 (redactSecrets u plan.topic.val)).isSome ∧
        (redactBounded u plan.subQuestions).isSome ∧ (redactBounded u plan.hypotheses).isSome ∧
          (redactBounded u plan.taxonomyHints).isSome ∧
            (redactBounded u plan.sourceDomainHints).isSome := by
    simp only [planTexts, List.forall_mem_cons, List.map_append, List.forall_mem_append,
      List.forall_mem_map, check_redacted, redactBounded_isSome, and_assoc]
  rw [hTexts, redactPlan]
  cases BoundedText.check 1 500 (redactSecrets u plan.topic.val) with
  | none => simp
  | some topic =>
      cases redactBounded u plan.subQuestions with
      | none => simp
      | some subQuestions =>
          cases redactBounded u plan.hypotheses with
          | none => simp
          | some hypotheses =>
              cases redactBounded u plan.taxonomyHints with
              | none => simp
              | some taxonomyHints => cases redactBounded u plan.sourceDomainHints <;> simp

/-! ## Outputs of the model -/

/-- What the callers do with a redacted output raises exactly where the redacted text does not fit:
the audit row of a verdict, of a confirmed contradiction and of a conclusion, and the validation of
a plan. -/
theorem redaction_fits_iff (p : Platform) :
    (∀ runId statement score ratio decision, ∀ verdict : VerificationVerdict,
      AppendRaises p (verifyEntry p.unicode runId statement score ratio
        ⟨decision, verdict.supported, verdict.confidence, verdict.reason.val⟩) ↔
          ¬ Fits p.unicode maxReasonLen verdict.reason.val) ∧
    (∀ runId row evidence, ∀ verdict : ConfirmVerdict,
      AppendRaises p (contradictionEntry p.unicode runId row evidence verdict.reason.val) ↔
        ¬ Fits p.unicode maxReasonLen verdict.reason.val) ∧
    (∀ runId id cited oneSided highStakes, ∀ draft : ConclusionDraft,
      AppendRaises p (conclusionEntry runId id (redactSecrets p.unicode draft.text.val) cited oneSided
        highStakes) ↔ ¬ Fits p.unicode maxReasonLen draft.text.val) ∧
    (∀ plan, (∃ error, redactPlan p.unicode plan = .error error) ↔
      ¬ ∀ text ∈ planTexts plan, Fits p.unicode 500 text) := by
  refine ⟨?_, ?_, ?_, ?_⟩
  · intro runId statement score ratio decision verdict
    exact appendRaises_redacted verifyEntry_labelled rfl
  · intro runId row evidence verdict
    have hLabels : (contradictionEntry p.unicode runId row evidence verdict.reason.val).Labelled :=
      ⟨rfl, rfl, optionalString_uuid _ _, rfl, rfl⟩
    exact appendRaises_redacted hLabels rfl
  · intro runId id cited oneSided highStakes draft
    have hLabels : (conclusionEntry runId id (redactSecrets p.unicode draft.text.val) cited oneSided
        highStakes).Labelled := ⟨rfl, rfl, optionalString_uuid _ _, rfl, rfl⟩
    exact appendRaises_redacted hLabels rfl
  · intro plan
    rw [← redactPlan_ok_iff]
    cases redactPlan p.unicode plan with
    | error error => simp
    | ok redacted => simp

/-! ## A password at the limit -/

/-- A text of 2000 characters which ends with the shortest password. -/
def atLimit : Text := List.replicate 1992 'a' ++ " token:a".toList

/-- A schema-valid reason at the limit makes `append` raise. -/
theorem redaction_overflows : ∃ (p : Platform) (runId : Uuid) (statement : Statement)
    (verdict : VerificationVerdict),
      AppendRaises p (verifyEntry p.unicode runId statement .full 1
        ⟨.verified, verdict.supported, verdict.confidence, verdict.reason.val⟩) := by
  have hLength : atLimit.length = 2000 := by decide +kernel
  have hRedacted : (redactSecrets Platform.plain.unicode atLimit).length = 2003 := by
    decide +kernel
  let verdict : VerificationVerdict :=
    ⟨true, .supported, ⟨atLimit, by omega, by omega⟩, none⟩
  refine ⟨.plain, ⟨1⟩, .noted 4 "a b".toList .draft, verdict, ?_⟩
  rw [appendRaises_redacted verifyEntry_labelled rfl, fits_iff, hRedacted]
  decide

end Ecrke
