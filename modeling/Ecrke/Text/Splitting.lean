import Ecrke.Text.Substitution

/-!
# Substitution between the letters which a pattern rejects

A pattern without boundaries sees only what is ahead of it, and no match of it goes beyond a letter
which it rejects.  So a substitution works on the stretches between such letters one by one.

* `Regex.Plain` -- patterns without boundaries.
* `sub_match`, `sub_skip` -- one step of a substitution.
* `sub_split` -- a substitution splits at a letter which the pattern rejects.
* `sub_run`, `sub_short` -- the substitution of a repetition in a run of its letters.
* `sub_same_or`, `mem_sub` -- what is in a text after a substitution.
-/

namespace Ecrke

namespace Regex

variable {α : Type} {pattern : Regex α} {replacement : List α}

/-- No match looks at the letters next to it. -/
def Plain : Regex α → Prop
  | seq first second => Plain first ∧ Plain second
  | alt first second => Plain first ∧ Plain second
  | boundary _ => False
  | _ => True

/-! ## Sides -/

/-- The same position with more text on both sides. -/
def widen (side later : List α) (at_ : Cursor α) : Cursor α :=
  ⟨at_.behind ++ side, at_.ahead ++ later⟩

theorem manyFrom_widen {accepts : α → Bool} {least : Nat} {most : Option Nat} (side : List α)
    {later : List α} (hLater : ∀ letter, later.head? = some letter → accepts letter = false)
    (behind ahead : List α) : manyFrom accepts least most (behind ++ side) (ahead ++ later) =
      (manyFrom accepts least most behind ahead).map (widen side later) := by
  induction ahead generalizing least most behind with
  | nil =>
      cases later with
      | nil =>
          rw [List.append_nil, manyFrom, manyFrom]
          split <;> simp [widen]
      | cons letter rest =>
          have hLetter := hLater letter rfl
          rw [List.nil_append, manyFrom, manyFrom, if_neg (by simp [hLetter]), List.nil_append]
          split <;> simp [widen]
  | cons letter rest ih =>
      have hRest : manyFrom accepts (least - 1) (most.map (· - 1)) (letter :: behind ++ side)
          (rest ++ later) = _ := ih (letter :: behind)
      rw [List.cons_append, manyFrom, manyFrom, List.map_append]
      congr 1
      · split
        · exact hRest
        · rfl
      · split
        · rfl
        · rfl

/-- More text on both sides makes no difference, as long as the next letter is rejected. -/
theorem stops_widen (hPlain : Plain pattern) (side : List α) {later : List α}
    (hLater : ∀ letter, later.head? = some letter → Rejects letter pattern) (at_ : Cursor α) :
    pattern.stops (widen side later at_) =
      (pattern.stops at_).map (widen side later) := by
  induction pattern generalizing at_ with
  | empty => rfl
  | one accepts =>
      obtain ⟨behind, ahead⟩ := at_
      cases ahead with
      | nil =>
          cases later with
          | nil => rfl
          | cons letter rest =>
              have hLetter : accepts letter = false := hLater letter rfl
              simp [widen, stops, hLetter]
      | cons letter rest =>
          by_cases hAccepts : accepts letter <;> simp [widen, stops, hAccepts]
  | many accepts least most => exact manyFrom_widen side hLater at_.behind at_.ahead
  | seq first second ihFirst ihSecond =>
      have hFirst := ihFirst hPlain.1 (fun letter h => (hLater letter h).1) at_
      have hSecond := ihSecond hPlain.2 fun letter h => (hLater letter h).2
      rw [stops, stops, hFirst, List.flatMap_map, List.map_flatMap]
      exact List.flatMap_congr fun stop _ => hSecond stop
  | alt first second ihFirst ihSecond =>
      have hFirst := ihFirst hPlain.1 (fun letter h => (hLater letter h).1) at_
      have hSecond := ihSecond hPlain.2 (fun letter h => (hLater letter h).2) at_
      rw [stops, stops, hFirst, hSecond, List.map_append]
  | boundary isWord => exact hPlain.elim

/-- In particular what is behind makes none. -/
theorem stops_behind (hPlain : Plain pattern) (behind ahead : List α) :
    pattern.stops ⟨behind, ahead⟩ =
      (pattern.stops ⟨[], ahead⟩).map (widen behind []) := by
  have h : pattern.stops (widen behind [] ⟨[], ahead⟩) = _ :=
    stops_widen hPlain behind (by simp) ⟨[], ahead⟩
  simpa [widen] using h

/-! ## Steps -/

/-- With fuel for every letter, a substitution does not depend on the fuel or on what is behind. -/
theorem subFrom_eq_sub (hPlain : Plain pattern) {fuel : Nat} {behind ahead : List α}
    (hFuel : ahead.length ≤ fuel) :
    subFrom pattern replacement fuel ⟨behind, ahead⟩ = pattern.sub replacement ahead := by
  induction hLength : ahead.length using Nat.strong_induction_on generalizing fuel behind ahead with
  | _ length ih =>
      cases ahead with
      | nil => cases fuel <;> rfl
      | cons letter rest =>
          subst hLength
          simp only [List.length_cons] at hFuel ih
          obtain ⟨fuel, rfl⟩ : ∃ more, fuel = more + 1 := ⟨fuel - 1, by omega⟩
          have hPass {fuel : Nat} {behind : List α} (hFuel : rest.length ≤ fuel) :
              subFrom pattern replacement fuel ⟨behind, rest⟩ = pattern.sub replacement rest :=
            ih rest.length (by omega) hFuel rfl
          rw [sub, List.length_cons, subFrom, subFrom, stops_behind hPlain, List.head?_map]
          dsimp only
          rw [hPass (by omega), hPass le_rfl]
          cases (pattern.stops ⟨[], letter :: rest⟩).head? with
          | none => rfl
          | some stop =>
              have hAhead : (widen behind [] stop).ahead = stop.ahead := List.append_nil _
              have hStop (fuel : Nat) (behind : List α) (hShorter : stop.ahead.length ≤ rest.length)
                  (hFuel : rest.length ≤ fuel) :
                  subFrom pattern replacement fuel ⟨behind, stop.ahead⟩ =
                    pattern.sub replacement stop.ahead :=
                ih stop.ahead.length (by omega) (by omega) rfl
              dsimp only [Option.map_some]
              rw [hAhead]
              split
              · next hShorter =>
                  rw [List.length_cons] at hShorter
                  have hHere := hStop rest.length stop.behind (by omega) le_rfl
                  have hThere := hStop fuel (stop.behind ++ behind) (by omega) (by omega)
                  rw [hHere, widen, List.append_nil, hThere]
              · rfl

/-- Where the preferred match takes letters, it is replaced. -/
theorem sub_match (hPlain : Plain pattern) {text : List α} {stop : Cursor α}
    (hStop : (pattern.stops ⟨[], text⟩).head? = some stop)
    (hShorter : stop.ahead.length < text.length) :
    pattern.sub replacement text = replacement ++ pattern.sub replacement stop.ahead := by
  cases text with
  | nil => simp at hShorter
  | cons letter rest =>
      have hLater : subFrom pattern replacement rest.length stop =
          pattern.sub replacement stop.ahead := by
        rw [List.length_cons] at hShorter
        exact subFrom_eq_sub hPlain (by omega)
      rw [sub, List.length_cons, subFrom, hStop]
      dsimp only
      rw [if_pos hShorter, hLater]

/-- Where it takes none, the next letter is passed over. -/
theorem sub_skip (hPlain : Plain pattern) {letter : α} {rest : List α}
    (hNone : ∀ stop, (pattern.stops ⟨[], letter :: rest⟩).head? = some stop →
      ¬ stop.ahead.length < (letter :: rest).length) :
    pattern.sub replacement (letter :: rest) = letter :: pattern.sub replacement rest := by
  have hLater : subFrom pattern replacement rest.length ⟨[letter], rest⟩ =
      pattern.sub replacement rest := subFrom_eq_sub hPlain le_rfl
  rw [sub, List.length_cons, subFrom]
  dsimp only
  cases hHead : (pattern.stops ⟨[], letter :: rest⟩).head? with
  | none =>
      dsimp only
      rw [hLater]
  | some stop =>
      dsimp only
      rw [if_neg (hNone stop hHead), hLater]

/-- A substitution splits at a letter which the pattern rejects. -/
theorem sub_split (hPlain : Plain pattern) {letter : α} (hRejects : Rejects letter pattern)
    (text later : List α) : pattern.sub replacement (text ++ letter :: later) =
      pattern.sub replacement text ++ letter :: pattern.sub replacement later := by
  have hStops (text : List α) : pattern.stops ⟨[], text ++ letter :: later⟩ =
      (pattern.stops ⟨[], text⟩).map (widen [] (letter :: later)) := by
    show pattern.stops (widen [] (letter :: later) ⟨[], text⟩) = _
    apply stops_widen hPlain
    intro other hOther
    obtain rfl : letter = other := by simpa using hOther
    exact hRejects
  induction hLength : text.length using Nat.strong_induction_on generalizing text with
  | _ length ih =>
      subst hLength
      cases text with
      | nil =>
          rw [List.nil_append]
          apply sub_skip hPlain
          intro stop hStop
          rw [← List.nil_append (letter :: later), hStops, List.head?_map] at hStop
          obtain ⟨first, -, rfl⟩ := Option.map_eq_some_iff.mp hStop
          simp only [widen, List.length_append, List.length_cons]
          omega
      | cons other rest =>
          have hNext := ih rest.length (by simp) rest rfl
          by_cases hMatch : ∃ stop, (pattern.stops ⟨[], other :: rest⟩).head? = some stop ∧
              stop.ahead.length < (other :: rest).length
          · obtain ⟨stop, hHead, hShorter⟩ := hMatch
            have hWide : (pattern.stops ⟨[], other :: rest ++ letter :: later⟩).head? =
                some (widen [] (letter :: later) stop) := by
              rw [hStops, List.head?_map, hHead]
              rfl
            have hWider : (widen [] (letter :: later) stop).ahead =
                stop.ahead ++ letter :: later := rfl
            rw [sub_match hPlain hHead hShorter, sub_match hPlain hWide, hWider,
              ih stop.ahead.length hShorter stop.ahead rfl, List.append_assoc]
            rw [hWider, List.length_append, List.length_append]
            omega
          · have hHere : pattern.sub replacement (other :: rest) =
                other :: pattern.sub replacement rest := by
              apply sub_skip hPlain
              intro stop hHead hShorter
              exact hMatch ⟨stop, hHead, hShorter⟩
            have hWider : pattern.sub replacement (other :: (rest ++ letter :: later)) =
                other :: pattern.sub replacement (rest ++ letter :: later) := by
              apply sub_skip hPlain
              intro wide hWide hShorter
              rw [← List.cons_append, hStops, List.head?_map] at hWide
              obtain ⟨stop, hHead, rfl⟩ := Option.map_eq_some_iff.mp hWide
              apply hMatch
              refine ⟨stop, hHead, ?_⟩
              simp only [widen, List.length_append, List.length_cons] at hShorter ⊢
              omega
            rw [List.cons_append, hWider, hNext, hHere, List.cons_append]

theorem sub_nil (pattern : Regex α) (replacement : List α) : pattern.sub replacement [] = [] := rfl

/-! ## Runs -/

/-- The preferred match of an unbounded repetition takes a whole run. -/
theorem manyFrom_run {accepts : α → Bool} {least : Nat} {run later : List α}
    (hRun : ∀ letter ∈ run, accepts letter = true)
    (hLater : ∀ letter, later.head? = some letter → accepts letter = false)
    (hLeast : least ≤ run.length) (behind : List α) :
    (manyFrom accepts least none behind (run ++ later)).head? =
      some ⟨run.reverse ++ behind, later⟩ := by
  induction run generalizing least behind with
  | nil =>
      have hZero : least = 0 := by simpa using hLeast
      cases later with
      | nil => simp [manyFrom, hZero]
      | cons letter rest => simp [manyFrom, hZero, hLater letter rfl]
  | cons letter rest ih =>
      have hLetter := hRun letter (by simp)
      rw [List.length_cons] at hLeast
      have hRest : (manyFrom accepts (least - 1) none (letter :: behind) (rest ++ later)).head? =
          some ⟨rest.reverse ++ (letter :: behind), later⟩ :=
        ih (fun other h => hRun other (by simp [h])) (by omega) (letter :: behind)
      rw [List.cons_append, manyFrom, if_pos ⟨by simp, hLetter⟩, List.head?_append]
      dsimp only [Option.map_none]
      rw [hRest]
      simp

/-- The preferred match of two patterns is made of their preferred matches, where both exist. -/
theorem stops_seq_head {first second : Regex α} {at_ middle stop : Cursor α}
    (hFirst : (first.stops at_).head? = some middle)
    (hSecond : (second.stops middle).head? = some stop) :
    ((seq first second).stops at_).head? = some stop := by
  cases hStops : first.stops at_ with
  | nil =>
      rw [hStops] at hFirst
      cases hFirst
  | cons head rest =>
      rw [hStops] at hFirst
      cases hFirst
      rw [stops, hStops, List.flatMap_cons, List.head?_append, hSecond]
      rfl

/-- A run which is long enough is replaced. -/
theorem sub_run {accepts : α → Bool} {least : Nat} {run : List α}
    (hRun : ∀ letter ∈ run, accepts letter = true) (hSome : run ≠ []) (hLeast : least ≤ run.length) :
    (many accepts least none).sub replacement run = replacement := by
  have hPlain : Plain (many accepts least none) := trivial
  have hHead : ((many accepts least none).stops ⟨[], run⟩).head? = some ⟨run.reverse ++ [], []⟩ := by
    have h := @manyFrom_run _ accepts least run [] hRun (by simp) hLeast []
    rwa [List.append_nil] at h
  rw [sub_match hPlain hHead (List.length_pos_iff.mpr hSome), sub_nil, List.append_nil]

/-- A text which is too short for a match stays as it is. -/
theorem sub_short {accepts : α → Bool} {least : Nat} {text : List α}
    (hShort : text.length < least) : (many accepts least none).sub replacement text = text := by
  apply Absent.sub_eq
  intro behind ahead hText
  rw [List.eq_nil_iff_forall_not_mem]
  intro stop hStop
  obtain ⟨taken, hAhead, -, hTakes⟩ := takes_of_mem hStop
  have hLeast := (takes_many.mp hTakes).2.1
  rw [hText, hAhead, List.length_append, List.length_append] at hShort
  omega

/-! ## Pieces of a text -/

/-- A piece without a letter is on one side of it. -/
theorem infix_split {piece text later : List α} {letter : α} (hLetter : letter ∉ piece) :
    piece <:+: text ++ letter :: later ↔ piece <:+: text ∨ piece <:+: later := by
  constructor
  · rintro ⟨before, after, hText⟩
    rw [List.append_assoc] at hText
    rcases append_split hText with ⟨gap, hFront, hRest⟩ | ⟨other, gap, hFront, hRest⟩
    · rcases append_split hRest with ⟨gap', hFront', -⟩ | ⟨other, gap', hFront', hRest'⟩
      · left
        exact ⟨before, gap', by rw [hFront, hFront', List.append_assoc]⟩
      · rw [List.cons_append] at hRest'
        obtain ⟨rfl, -⟩ := List.cons.inj hRest'
        rw [hFront'] at hLetter
        simp at hLetter
    · right
      rw [List.cons_append] at hRest
      obtain ⟨-, hLater⟩ := List.cons.inj hRest
      exact ⟨gap, after, by rw [hLater, List.append_assoc]⟩
  · rintro (h | h)
    · exact h.trans (List.prefix_append ..).isInfix
    · exact h.trans ((List.suffix_cons letter later).trans (List.suffix_append ..)).isInfix

/-! ## Matches and the letters which they reject -/

/-- A pattern matches in a text in front of the rest. -/
def Matched (pattern : Regex α) (text rest : List α) : Prop :=
  ∃ before taken, text = before ++ (taken ++ rest) ∧ Takes pattern before.reverse taken rest

theorem absent_iff {text : List α} : Absent pattern text ↔ ∀ rest, ¬ Matched pattern text rest := by
  constructor
  · rintro h rest ⟨before, taken, hText, hTakes⟩
    have hNone := h before.reverse (taken ++ rest) (by rw [List.reverse_reverse]; exact hText)
    exact hTakes.ne_nil hNone
  · intro h behind ahead hText
    rw [List.eq_nil_iff_forall_not_mem]
    intro stop hStop
    obtain ⟨taken, hAhead, -, hTakes⟩ := takes_of_mem hStop
    refine h stop.ahead ⟨behind.reverse, taken, ?_, ?_⟩
    · rw [hText, hAhead]
    · rw [List.reverse_reverse]
      exact hTakes

/-- A text which fails at every position has no match. -/
def nowhere (pattern : Regex α) (text : List α) : Bool :=
  (List.range (text.length + 1)).all fun i =>
    (pattern.stops ⟨(text.take i).reverse, text.drop i⟩).isEmpty

theorem absent_of_nowhere {text : List α} (h : nowhere pattern text = true) :
    Absent pattern text := by
  intro behind ahead hText
  have hMem : behind.length ∈ List.range (text.length + 1) := by
    rw [List.mem_range, hText, List.length_append, List.length_reverse]
    omega
  have hHere := List.all_eq_true.mp h behind.length hMem
  have hTake : text.take behind.length = behind.reverse := by
    rw [hText, List.take_left' (List.length_reverse ..)]
  have hDrop : text.drop behind.length = ahead := by
    rw [hText, List.drop_left' (List.length_reverse ..)]
  rw [hTake, hDrop, List.reverse_reverse, List.isEmpty_iff] at hHere
  exact hHere

theorem absent_of_needs {letters : α → Prop} {text : List α} (hNeeds : Needs letters pattern)
    (h : ∀ letter ∈ text, ¬ letters letter) : Absent pattern text := by
  intro behind ahead hText
  rw [List.eq_nil_iff_forall_not_mem]
  intro stop hStop
  obtain ⟨letter, hMem, hLetter⟩ := stops_needs hNeeds hStop
  exact h letter (by rw [hText]; exact List.mem_append_right _ hMem) hLetter

/-- The matches in a text are on the two sides of a letter which they reject, if it is no letter of a
word. -/
theorem matched_split {isWord : α → Bool} (hBounded : Bounded isWord pattern)
    (hConsumes : Consumes pattern) {letter : α} (hRejects : Rejects letter pattern)
    (hWord : isWord letter = false) {text later rest : List α} :
    Matched pattern (text ++ letter :: later) rest ↔
      (∃ back, Matched pattern text back ∧ rest = back ++ letter :: later) ∨
        Matched pattern later rest := by
  have hNear (side side' : List α) : nearWord isWord (side ++ letter :: side') =
      nearWord isWord side := by
    cases side with
    | nil => exact hWord
    | cons first more => rfl
  constructor
  · rintro ⟨before, taken, hText, hTakes⟩
    have hNot := hTakes.rejects hRejects
    have hSome := hTakes.consumes hConsumes
    rcases append_split hText with ⟨gap, rfl, hRest⟩ | ⟨first, gap, rfl, hRest⟩
    · right
      cases gap with
      | nil =>
          cases taken with
          | nil => exact absurd rfl hSome
          | cons first more =>
              obtain ⟨rfl, -⟩ := List.cons.inj hRest
              exact absurd (List.mem_cons_self ..) hNot
      | cons first gap =>
          rw [List.cons_append] at hRest
          obtain ⟨rfl, hLater⟩ := List.cons.inj hRest
          refine ⟨gap, taken, hLater, hTakes.moved hBounded ?_ (.inr rfl)⟩
          rw [List.reverse_append, List.reverse_cons, List.append_assoc, List.singleton_append]
          exact (hNear _ _).symm
    · left
      rcases append_split hRest with ⟨gap', hTaken, hBack⟩ | ⟨other, gap', hTaken, hBack⟩
      · refine ⟨gap', ⟨before, taken, by rw [hTaken], hTakes.moved hBounded rfl (.inr ?_)⟩, hBack⟩
        rw [hBack]
        exact (hNear _ _).symm
      · rw [List.cons_append] at hBack
        obtain ⟨rfl, -⟩ := List.cons.inj hBack
        rw [hTaken] at hNot
        simp at hNot
  · rintro (⟨back, ⟨before, taken, rfl, hTakes⟩, rfl⟩ | ⟨before, taken, rfl, hTakes⟩)
    · exact ⟨before, taken, by simp, hTakes.moved hBounded rfl (.inr (hNear _ _))⟩
    · refine ⟨text ++ letter :: before, taken, by simp, hTakes.moved hBounded ?_ (.inr rfl)⟩
      rw [List.reverse_append, List.reverse_cons, List.append_assoc, List.singleton_append]
      exact hNear _ _

/-! ## Letters after a substitution -/

theorem mem_subFrom {fuel : Nat} {at_ : Cursor α} {letter : α}
    (h : letter ∈ subFrom pattern replacement fuel at_) :
    letter ∈ at_.ahead ∨ letter ∈ replacement := by
  induction fuel generalizing at_ with
  | zero => exact .inl h
  | succ fuel ih =>
      obtain ⟨behind, ahead⟩ := at_
      cases ahead with
      | nil => simp [subFrom] at h
      | cons first rest =>
          have hPass (h : letter ∈ first :: subFrom pattern replacement fuel
              ⟨first :: behind, rest⟩) : letter ∈ first :: rest ∨ letter ∈ replacement := by
            rcases List.mem_cons.mp h with rfl | hRest
            · exact .inl (List.mem_cons_self ..)
            · exact (ih hRest).imp_left (List.mem_cons_of_mem _)
          rw [subFrom] at h
          dsimp only at h
          cases hHead : (pattern.stops ⟨behind, first :: rest⟩).head? with
          | none =>
              rw [hHead] at h
              exact hPass h
          | some stop =>
              rw [hHead] at h
              dsimp only at h
              split at h
              · rcases List.mem_append.mp h with hNew | hRest
                · exact .inr hNew
                · have hSuffix := stops_suffix (List.mem_of_mem_head? hHead)
                  exact (ih hRest).imp_left fun hMem => hSuffix.subset hMem
              · exact hPass h

/-- A letter of a text after a substitution was there before, or comes from the replacement. -/
theorem mem_sub {text : List α} {letter : α} (h : letter ∈ pattern.sub replacement text) :
    letter ∈ text ∨ letter ∈ replacement :=
  mem_subFrom h

theorem subFrom_same_or (fuel : Nat) (at_ : Cursor α) :
    subFrom pattern replacement fuel at_ = at_.ahead ∨
      replacement <:+: subFrom pattern replacement fuel at_ := by
  induction fuel generalizing at_ with
  | zero => exact .inl rfl
  | succ fuel ih =>
      obtain ⟨behind, ahead⟩ := at_
      cases ahead with
      | nil => exact .inl rfl
      | cons first rest =>
          have hPass : first :: subFrom pattern replacement fuel ⟨first :: behind, rest⟩ =
              first :: rest ∨ replacement <:+: first :: subFrom pattern replacement fuel
                ⟨first :: behind, rest⟩ := by
            rcases ih ⟨first :: behind, rest⟩ with hSame | hIn
            · exact .inl (by rw [hSame])
            · exact .inr (hIn.trans (List.suffix_cons ..).isInfix)
          rw [subFrom]
          dsimp only
          cases hHead : (pattern.stops ⟨behind, first :: rest⟩).head? with
          | none => exact hPass
          | some stop =>
              dsimp only
              split
              · exact .inr (List.prefix_append ..).isInfix
              · exact hPass

/-- A substitution leaves a text as it is, or puts a replacement into it. -/
theorem sub_same_or (pattern : Regex α) (replacement text : List α) :
    pattern.sub replacement text = text ∨ replacement <:+: pattern.sub replacement text :=
  subFrom_same_or _ _

end Regex

end Ecrke
