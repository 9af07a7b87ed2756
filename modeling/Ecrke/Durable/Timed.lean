import Ecrke.Durable.Executions
import Mathlib.Order.Monotone.Basic

/-!
# Programs in time

A step takes time.  A timing says when each step of a log begins and ends, and a law says what a step
has to do with its own time: that a clock which is read shows it, or that a pause lasts.

* `Timing`, `Timing.now` -- the times of the steps of a log.
* `Timing.Fits` -- every step of a log obeys a law.
* `Latest` -- a condition on the latest step of a kind.
* `Contract.timed` -- the contract of a program in time, with the rules `wp_timed_query`,
  `wp_timed_ask`, `wp_timed_act` and `wp_timed_keeps`.
* `Timing.Apart`, `Timing.Spaced` -- steps of a kind which begin apart from each other.
* `Completed` -- executions of jobs one after the other, each of which has ended;
  `Completed.invariant`, the induction over them.
-/

namespace Ecrke
namespace Durable

universe u

variable {S : Signature} {α : Type} {Time : Type} [Preorder Time]

/-! ## Times -/

/-- The times at which the steps of a log begin and end, by their positions. -/
structure Timing (Time : Type) [Preorder Time] where
  begins : Nat → Time
  ends : Nat → Time
  lasts (n : Nat) : begins n ≤ ends n
  follows (n : Nat) : ends n ≤ begins (n + 1)

namespace Timing

variable (T : Timing Time)

theorem begins_mono : Monotone T.begins :=
  monotone_nat_of_le_succ fun n => (T.lasts n).trans (T.follows n)

/-- The time at which the step after a log begins. -/
def now (l : Log S) : Time := T.begins l.length

/-- The time at which the step after a log ends. -/
def later (l : Log S) : Time := T.ends l.length

theorem now_le_later (l : Log S) : T.now l ≤ T.later l := T.lasts l.length

theorem later_le {l l' : Log S} (h : l.length < l'.length) : T.later l ≤ T.now l' :=
  (T.follows l.length).trans (T.begins_mono h)

theorem now_mono {l l' : Log S} (h : l.length ≤ l'.length) : T.now l ≤ T.now l' := T.begins_mono h

/-- Every step of a log obeys a law on its begin, on what it does, and on its end. -/
def Fits (law : Time → Happening S → Time → Prop) (l : Log S) : Prop :=
  ∀ earlier m rest, l = earlier ++ m :: rest → law (T.now earlier) m.happening (T.later earlier)

end Timing

/-! ## The latest step of a kind -/

/-- A condition on the latest step of a kind in a log, and on the log before it. -/
def Latest (kind : Moment S → Prop) (P : Log S → Moment S → Prop) (l : Log S) : Prop :=
  ∀ earlier m between, l = earlier ++ m :: between → kind m → (∀ m' ∈ between, ¬ kind m') →
    P earlier m

section Latest

variable {kind : Moment S → Prop} {P Q : Log S → Moment S → Prop} {l : Log S} {m : Moment S}

theorem latest_nil : Latest kind P [] := by
  intro earlier m between hLog
  simp at hLog

/-- A step of the kind is the latest one. -/
theorem latest_kind (hm : kind m) : Latest kind P (l ++ [m]) ↔ P l m := by
  constructor
  · intro h
    exact h l m [] rfl hm (by simp)
  · intro h earlier m' between hLog hm' hNone
    rcases List.eq_nil_or_concat between with rfl | ⟨front, last, rfl⟩
    · obtain ⟨rfl, hSame⟩ := List.append_inj' hLog rfl
      cases hSame
      exact h
    · rw [List.concat_eq_append, ← List.cons_append, ← List.append_assoc] at hLog
      obtain ⟨-, hSame⟩ := List.append_inj' hLog rfl
      cases hSame
      exact absurd hm (hNone m (by simp))

/-- Another step does not matter. -/
theorem latest_other (hm : ¬ kind m) : Latest kind P (l ++ [m]) ↔ Latest kind P l := by
  constructor
  · intro h earlier m' between hLog hm' hNone
    apply h earlier m' (between ++ [m]) (by simp [hLog]) hm'
    intro m'' hMem
    rcases List.mem_append.mp hMem with hMem | hMem
    · exact hNone m'' hMem
    · rw [List.mem_singleton.mp hMem]
      exact hm
  · intro h earlier m' between hLog hm' hNone
    rcases List.eq_nil_or_concat between with rfl | ⟨front, last, rfl⟩
    · obtain ⟨-, hSame⟩ := List.append_inj' hLog rfl
      cases hSame
      exact absurd hm' hm
    · rw [List.concat_eq_append, ← List.cons_append, ← List.append_assoc] at hLog
      obtain ⟨hFront, -⟩ := List.append_inj' hLog rfl
      exact h earlier m' front hFront hm' fun m'' hMem => hNone m'' (by simp [hMem])

theorem Latest.mono (hPQ : ∀ earlier m, earlier.length ≤ l.length → P earlier m → Q earlier m)
    (h : Latest kind P l) : Latest kind Q l := by
  intro earlier m between hLog hm hNone
  apply hPQ earlier m
  · rw [hLog, List.length_append]
    omega
  · exact h earlier m between hLog hm hNone

end Latest

/-! ## Contracts -/

section Contracts

variable (T : Timing Time) (law : Time → Happening S → Time → Prop)
  (ensures : Log S → Moment S → Prop)

/-- The contract of a program which runs alone and in time. -/
def Contract.timed : Contract S where
  rely := Eq
  given := fun l m => law (T.now l) m.happening (T.later l)
  ensures := ensures

variable {T law ensures} {s : S.State} {l : Log S}

theorem Timing.Fits.granted (h : T.Fits law l) : (Contract.timed T law ensures).Granted [] l :=
  Contract.granted_of_splits fun earlier m later hLog => h earlier m later hLog

theorem Timing.fits_iff :
    T.Fits law l ↔ (Contract.timed T law fun _ _ => True).Granted [] l := by
  constructor
  · exact Fits.granted
  · rintro h earlier m rest rfl
    rw [Contract.granted_append, List.nil_append] at h
    exact h.2.1

/-- The steps taken for granted can be checked one after the other. -/
instance decidableGranted [∀ begins happening ends, Decidable (law begins happening ends)] :
    (l now : Log S) → Decidable ((Contract.timed T law ensures).Granted l now)
  | _, [] => isTrue trivial
  | l, m :: rest =>
      have : Decidable ((Contract.timed T law ensures).Granted (l ++ [m]) rest) :=
        decidableGranted (l ++ [m]) rest
      inferInstanceAs (Decidable (law (T.now l) m.happening (T.later l) ∧
        (Contract.timed T law ensures).Granted (l ++ [m]) rest))

instance [∀ begins happening ends, Decidable (law begins happening ends)] (l : Log S) :
    Decidable (T.Fits law l) :=
  decidable_of_iff _ Timing.fits_iff.symm

theorem wp_timed_query {question : S.Query} {Q : Post S (S.Answer question)}
    (h : ∀ answer, law (T.now l) (.asked question answer) (T.later l) →
      ensures l ⟨s, .asked question answer, s⟩ ∧
        Q (.ok answer) s (l ++ [⟨s, .asked question answer, s⟩])) :
    wp (.timed T law ensures) Q (Prog.query question) s l := by
  apply wp_query
  rintro answer t ⟨hSame, hLaw⟩
  cases (hSame : s = t)
  exact h answer hLaw

/-- Ask the outside world and go on with the answer. -/
theorem wp_timed_ask {question : S.Query} {f : S.Answer question → Prog S α} {Q : Post S α}
    (h : ∀ answer, law (T.now l) (.asked question answer) (T.later l) →
      ensures l ⟨s, .asked question answer, s⟩ ∧
        wp (.timed T law ensures) Q (f answer) s (l ++ [⟨s, .asked question answer, s⟩])) :
    wp (.timed T law ensures) Q ((Prog.query question).bind f) s l :=
  wp_andThen (wp_timed_query h)

/-- Take a step in shared memory and go on with its value. -/
theorem wp_timed_act {β : Type} {run : S.State → β × S.State} {f : β → Prog S α} {Q : Post S α}
    (hNow : ensures l ⟨s, .moved, (run s).2⟩)
    (h : wp (.timed T law ensures) Q (f (run s).1) (run s).2 (l ++ [⟨s, .moved, (run s).2⟩])) :
    wp (.timed T law ensures) Q ((Prog.atomically run).bind f) s l := by
  apply wp_andThen
  apply wp_atomically
  rintro t ⟨hSame, -⟩
  cases (hSame : s = t)
  exact ⟨hNow, h⟩

/-- A program whose footprint keeps an invariant. -/
theorem wp_timed_keeps {R : Moment S → Prop} {I : S.State → Log S → Prop} {p : Prog S α}
    (hKeeps : Keeps R p)
    (hI : ∀ m l, R m → I m.before l → ensures l m ∧ I m.after (l ++ [m])) (h : I s l) :
    wp (.timed T law ensures) (fun _ t l' => I t l') p s l := by
  induction hKeeps generalizing s l with
  | @intro p hNow hNext ih =>
      cases p with
      | done value => exact .done h
      | raise error => exact .raise h
      | _ =>
          refine .step (by rintro ⟨⟩) ?_ ?_
          · rintro m q hStep ⟨hSame, -⟩
            cases (hSame : s = m.before)
            exact (hI m l (hNow m q hStep) h).1
          · rintro m q hStep ⟨hSame, -⟩
            cases (hSame : s = m.before)
            exact ih m q hStep (hI m l (hNow m q hStep) h).2

end Contracts

/-! ## Steps which are apart -/

namespace Timing

variable (T : Timing Time) (kind : Moment S → Prop) (settled : Log S → Moment S → Prop)
  (apart : Time → Time → Prop)

/-- A step of a kind begins apart from the latest one before it, if that is settled. -/
def Apart (l : Log S) (m : Moment S) : Prop :=
  kind m → Latest kind (fun earlier m' => settled earlier m' → apart (T.now earlier) (T.now l)) l

/-- Two steps of a kind without others in between begin apart, if the first one is settled. -/
def Spaced (log : Log S) : Prop :=
  ∀ earlier first between second rest, log = earlier ++ first :: (between ++ second :: rest) →
    kind first → (∀ m ∈ between, ¬ kind m) → kind second → settled earlier first →
    apart (T.now earlier) (T.now (earlier ++ first :: between))

variable {T kind settled apart} {law : Time → Happening S → Time → Prop}

theorem apart_other {l : Log S} {m : Moment S} (hm : ¬ kind m) : T.Apart kind settled apart l m :=
  fun hKind => absurd hKind hm

theorem spaced_of_along {log : Log S}
    (h : (Contract.timed T law (T.Apart kind settled apart)).Along [] log) :
    T.Spaced kind settled apart log := by
  intro earlier first between second rest hLog hFirst hNone hSecond hSettled
  have hSplit : log = (earlier ++ first :: between) ++ second :: rest := by simp [hLog]
  rw [hSplit, Contract.along_append, List.nil_append] at h
  exact h.2.1 hSecond earlier first between rfl hFirst hNone hSettled

end Timing

/-! ## Complete executions -/

/-- Executions of jobs one after the other, each of which has ended. -/
inductive Completed {ι : Type u} {result : ι → Type} (job : (i : ι) → Prog S (result i)) :
    S.State → Log S → S.State → Prop where
  | nil (s : S.State) : Completed job s [] s
  | snoc {s t u : S.State} {earlier now : Log S} (past : Completed job s earlier t) (i : ι)
      {left : Prog S (result i)} (last : Exec (job i) t now left u) (hEnd : Ended left) :
      Completed job s (earlier ++ now) u

/-- If every job keeps an invariant until it ends, then so does a sequence of them, and it keeps the
contract. -/
theorem Completed.invariant {ι : Type u} {result : ι → Type} {job : (i : ι) → Prog S (result i)}
    {C : Contract S} (hRely : ∀ s, C.rely s s) (I : S.State → Log S → Prop)
    (hJob : ∀ i s l, I s l → wp C (fun _ t l' => I t l') (job i) s l) {s t : S.State}
    {l now : Log S} (h : Completed job s now t) (hStart : I s l) (hGiven : C.Granted l now) :
    C.Along l now ∧ I t (l ++ now) := by
  induction h with
  | nil => simpa [Contract.Along] using hStart
  | snoc past i last hEnd ih =>
      rw [Contract.granted_append] at hGiven
      obtain ⟨hPast, hMid⟩ := ih hGiven.1
      obtain ⟨hNow, hLeft⟩ := wp_exec hRely last (hJob i _ _ hMid) hGiven.2
      rw [Contract.along_append, ← List.append_assoc]
      refine ⟨⟨hPast, hNow⟩, ?_⟩
      cases hEnd with
      | done value => exact (wp_done ..).mp hLeft
      | raise error => exact (wp_raise ..).mp hLeft

end Durable
end Ecrke
