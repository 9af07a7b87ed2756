import Ecrke.Text.Regex
import Mathlib.Data.List.Chain

/-!
# Substitution which leaves no match behind

A pattern is substituted by a replacement which acts as a fence: no match of a pattern can start
inside it or reach into it.  Then the matches after a substitution are matches from before, at
positions which the substitution has passed over.

* `Regex.Takes` -- a pattern matches a piece of a text between its two sides.
* `Takes.moved` -- a match depends on its sides only through the letters next to it.
* `Regex.Fenced`, `Regex.Fence` -- the patterns and the replacements in question.
* `Fenced.origin` -- where a match after a substitution comes from.
* `absent_foldl` -- after the substitution of several patterns none of them matches.
-/

namespace Ecrke

namespace Regex

variable {α : Type}

/-! ## Matches as pieces of a text -/

/-- A pattern matches a piece of a text, with what is behind the piece, nearest first, and ahead of
it. -/
def Takes (pattern : Regex α) (behind taken ahead : List α) : Prop :=
  ⟨taken.reverse ++ behind, ahead⟩ ∈ pattern.stops ⟨behind, taken ++ ahead⟩

/-- The first letter of a side belongs to a class. -/
def nearWord (isWord : α → Bool) (side : List α) : Bool := side.head?.any isWord

theorem manyFrom_taken {accepts : α → Bool} {least : Nat} {most : Option Nat}
    {behind ahead : List α} {stop : Cursor α}
    (h : stop ∈ manyFrom accepts least most behind ahead) :
    ∃ taken, ahead = taken ++ stop.ahead ∧ stop.behind = taken.reverse ++ behind := by
  induction ahead generalizing least most behind with
  | nil =>
      by_cases hLeast : least = 0 <;> simp [manyFrom, hLeast] at h
      subst h
      exact ⟨[], rfl, rfl⟩
  | cons letter rest ih =>
      rw [manyFrom, List.mem_append] at h
      rcases h with h | h
      · by_cases hTake : most ≠ some 0 ∧ accepts letter
        · rw [if_pos hTake] at h
          obtain ⟨taken, hAhead, hBehind⟩ := ih h
          exact ⟨letter :: taken, by rw [hAhead]; rfl, by rw [hBehind]; simp⟩
        · rw [if_neg hTake] at h
          exact absurd h List.not_mem_nil
      · by_cases hLeast : least = 0
        · rw [if_pos hLeast, List.mem_singleton] at h
          subst h
          exact ⟨[], rfl, rfl⟩
        · rw [if_neg hLeast] at h
          exact absurd h List.not_mem_nil

/-- A match takes a piece of the text. -/
theorem stops_taken {pattern : Regex α} {at_ stop : Cursor α} (h : stop ∈ pattern.stops at_) :
    ∃ taken, at_.ahead = taken ++ stop.ahead ∧ stop.behind = taken.reverse ++ at_.behind := by
  induction pattern generalizing at_ stop with
  | empty =>
      rw [stops, List.mem_singleton] at h
      subst h
      exact ⟨[], rfl, rfl⟩
  | one accepts =>
      obtain ⟨behind, ahead⟩ := at_
      cases ahead with
      | nil => simp [stops] at h
      | cons letter rest =>
          by_cases hAccepts : accepts letter <;> simp [stops, hAccepts] at h
          subst h
          exact ⟨[letter], rfl, rfl⟩
  | many accepts least most => exact manyFrom_taken h
  | seq first second ihFirst ihSecond =>
      obtain ⟨mid, hMid, hStop⟩ := List.mem_flatMap.mp h
      obtain ⟨one, hOneAhead, hOneBehind⟩ := ihFirst hMid
      obtain ⟨two, hTwoAhead, hTwoBehind⟩ := ihSecond hStop
      refine ⟨one ++ two, ?_, ?_⟩
      · rw [hOneAhead, hTwoAhead, List.append_assoc]
      · rw [hTwoBehind, hOneBehind, List.reverse_append, List.append_assoc]
  | alt first second ihFirst ihSecond =>
      rcases List.mem_append.mp h with h | h
      · exact ihFirst h
      · exact ihSecond h
  | boundary isWord =>
      rw [stops] at h
      split at h
      · obtain rfl := List.mem_singleton.mp h
        exact ⟨[], rfl, rfl⟩
      · exact absurd h List.not_mem_nil

section Pieces

variable {behind taken ahead : List α}

theorem takes_of_mem {pattern : Regex α} {stop : Cursor α}
    (h : stop ∈ pattern.stops ⟨behind, ahead⟩) :
    ∃ taken, ahead = taken ++ stop.ahead ∧ stop.behind = taken.reverse ++ behind ∧
      Takes pattern behind taken stop.ahead := by
  obtain ⟨taken, hAhead, hBehind⟩ := stops_taken h
  have hStop : stop = ⟨taken.reverse ++ behind, stop.ahead⟩ := by rw [← hBehind]
  refine ⟨taken, hAhead, hBehind, ?_⟩
  rw [Takes, ← hStop]
  simpa [← hAhead] using h

theorem Takes.ne_nil {pattern : Regex α} (h : Takes pattern behind taken ahead) :
    pattern.stops ⟨behind, taken ++ ahead⟩ ≠ [] :=
  List.ne_nil_of_mem h

theorem takes_empty : Takes (.empty : Regex α) behind taken ahead ↔ taken = [] := by
  unfold Takes
  rw [stops, List.mem_singleton, Cursor.mk.injEq]
  constructor
  · rintro ⟨-, hAhead⟩
    simpa using hAhead.symm
  · rintro rfl
    exact ⟨rfl, rfl⟩

theorem takes_one {accepts : α → Bool} :
    Takes (.one accepts) behind taken ahead ↔ ∃ letter, taken = [letter] ∧ accepts letter := by
  constructor
  · intro h
    obtain ⟨letter, rest, hAll⟩ : ∃ letter rest, taken ++ ahead = letter :: rest := by
      cases hAll : taken ++ ahead with
      | nil => simp [Takes, hAll, stops] at h
      | cons letter rest => exact ⟨letter, rest, rfl⟩
    by_cases hAccepts : accepts letter
    · simp only [Takes, hAll, stops, hAccepts, if_true, List.mem_singleton, Cursor.mk.injEq] at h
      have hTaken : taken ++ ahead = [letter] ++ ahead := by rw [hAll, h.2]; rfl
      exact ⟨letter, List.append_cancel_right hTaken, hAccepts⟩
    · simp [Takes, hAll, stops, hAccepts] at h
  · rintro ⟨letter, rfl, hAccepts⟩
    simp [Takes, stops, hAccepts]

theorem takes_seq {first second : Regex α} :
    Takes (.seq first second) behind taken ahead ↔ ∃ one two, taken = one ++ two ∧
      Takes first behind one (two ++ ahead) ∧ Takes second (one.reverse ++ behind) two ahead := by
  constructor
  · intro h
    obtain ⟨⟨middle, rest⟩, hMiddle, hStop⟩ := List.mem_flatMap.mp h
    obtain ⟨one, hOne, rfl, hFirst⟩ := takes_of_mem hMiddle
    obtain ⟨two, hTwo, -, hSecond⟩ := takes_of_mem hStop
    rw [hTwo] at hOne hFirst
    rw [← List.append_assoc] at hOne
    exact ⟨one, two, List.append_cancel_right hOne, hFirst, hSecond⟩
  · rintro ⟨one, two, rfl, hFirst, hSecond⟩
    unfold Takes at hFirst hSecond ⊢
    rw [stops, List.mem_flatMap]
    rw [List.reverse_append, List.append_assoc, List.append_assoc]
    exact ⟨_, hFirst, hSecond⟩

theorem takes_alt {first second : Regex α} :
    Takes (.alt first second) behind taken ahead ↔
      Takes first behind taken ahead ∨ Takes second behind taken ahead := by
  unfold Takes
  rw [stops, List.mem_append]

theorem takes_boundary {isWord : α → Bool} :
    Takes (.boundary isWord) behind taken ahead ↔
      taken = [] ∧ nearWord isWord behind ≠ nearWord isWord ahead := by
  constructor
  · intro h
    obtain ⟨taken', hAhead, -⟩ := stops_taken h
    unfold Takes at h
    rw [stops] at h
    split at h
    · rename_i hBoundary
      have hStop := List.mem_singleton.mp h
      rw [Cursor.mk.injEq] at hStop
      obtain rfl : taken = [] := by simpa using hStop.2.symm
      exact ⟨rfl, hBoundary⟩
    · exact absurd h List.not_mem_nil
  · rintro ⟨rfl, hBoundary⟩
    unfold Takes
    rw [stops]
    unfold nearWord at hBoundary
    rw [if_pos (by simpa using hBoundary)]
    exact List.mem_singleton_self _

theorem manyFrom_iff {accepts : α → Bool} {least : Nat} {most : Option Nat} :
    (⟨taken.reverse ++ behind, ahead⟩ : Cursor α) ∈
        manyFrom accepts least most behind (taken ++ ahead) ↔
      (∀ letter ∈ taken, accepts letter) ∧ least ≤ taken.length ∧
        ∀ bound, most = some bound → taken.length ≤ bound := by
  induction taken generalizing least most behind with
  | nil =>
      have hLast : (⟨behind, ahead⟩ : Cursor α) ∈ manyFrom accepts least most behind ahead ↔
          least = 0 := by
        constructor
        · intro h
          by_contra hLeast
          obtain ⟨letter, rest, rfl⟩ : ∃ letter rest, ahead = letter :: rest := by
            cases ahead with
            | nil => simp [manyFrom, hLeast] at h
            | cons letter rest => exact ⟨letter, rest, rfl⟩
          rw [manyFrom, if_neg hLeast, List.append_nil] at h
          split at h
          · -- A later stop has fewer letters ahead.
            obtain ⟨taken, hAhead, -⟩ := manyFrom_taken h
            have hLength := congrArg List.length hAhead
            simp at hLength
            omega
          · exact absurd h List.not_mem_nil
        · rintro rfl
          cases ahead with
          | nil => simp [manyFrom]
          | cons letter rest => simp [manyFrom]
      simpa using hLast
  | cons letter rest ih =>
      have hStep : (⟨(letter :: rest).reverse ++ behind, ahead⟩ : Cursor α) ∈
          manyFrom accepts least most behind (letter :: rest ++ ahead) ↔
            (most ≠ some 0 ∧ accepts letter) ∧
              (⟨rest.reverse ++ (letter :: behind), ahead⟩ : Cursor α) ∈
                manyFrom accepts (least - 1) (most.map (· - 1)) (letter :: behind)
                  (rest ++ ahead) := by
        rw [List.cons_append, manyFrom, List.mem_append, List.reverse_cons, List.append_assoc]
        constructor
        · rintro (h | h)
          · split at h
            · rename_i hTake
              exact ⟨hTake, h⟩
            · exact absurd h List.not_mem_nil
          · split at h
            · have hStop := List.mem_singleton.mp h
              rw [Cursor.mk.injEq] at hStop
              have hLength := congrArg List.length hStop.2
              simp at hLength
              omega
            · exact absurd h List.not_mem_nil
        · rintro ⟨hTake, h⟩
          rw [if_pos hTake]
          exact .inl h
      rw [hStep, ih]
      constructor
      · rintro ⟨⟨hMost, hLetter⟩, hRest, hLeast, hBound⟩
        refine ⟨by simpa using ⟨hLetter, hRest⟩, by simp; omega, ?_⟩
        rintro bound rfl
        have hRestBound := hBound (bound - 1) rfl
        have hPos : bound ≠ 0 := by simpa using hMost
        simp
        omega
      · rintro ⟨hAll, hLeast, hBound⟩
        rw [List.forall_mem_cons] at hAll
        have hMost : most ≠ some 0 := by
          rintro rfl
          have hZero := hBound 0 rfl
          simp at hZero
        refine ⟨⟨hMost, hAll.1⟩, hAll.2, by simp at hLeast; omega, ?_⟩
        intro bound hEq
        obtain ⟨first, rfl, rfl⟩ := Option.map_eq_some_iff.mp hEq
        have hFirst := hBound first rfl
        simp at hFirst
        omega

theorem takes_many {accepts : α → Bool} {least : Nat} {most : Option Nat} :
    Takes (.many accepts least most) behind taken ahead ↔
      (∀ letter ∈ taken, accepts letter) ∧ least ≤ taken.length ∧
        ∀ bound, most = some bound → taken.length ≤ bound :=
  manyFrom_iff

end Pieces

/-! ## What a match depends on -/

/-- Every boundary of the pattern is one of the class. -/
def Bounded (isWord : α → Bool) : Regex α → Prop
  | boundary other => other = isWord
  | seq first second => Bounded isWord first ∧ Bounded isWord second
  | alt first second => Bounded isWord first ∧ Bounded isWord second
  | _ => True

/-- Every match has at least one letter. -/
def Consumes : Regex α → Prop
  | one _ => True
  | many _ least _ => 0 < least
  | seq first second => Consumes first ∨ Consumes second
  | alt first second => Consumes first ∧ Consumes second
  | _ => False

/-- No match looks at what is ahead of it. -/
def Blind : Regex α → Prop
  | seq first second => Blind second ∧ (Blind first ∨ Consumes second)
  | alt first second => Blind first ∧ Blind second
  | boundary _ => False
  | _ => True

/-- No match has the letter. -/
def Rejects (letter : α) : Regex α → Prop
  | one accepts => accepts letter = false
  | many accepts _ _ => accepts letter = false
  | seq first second => Rejects letter first ∧ Rejects letter second
  | alt first second => Rejects letter first ∧ Rejects letter second
  | _ => True

/-- Every match starts with a letter of a class. -/
def Opens (starts : α → Bool) : Regex α → Prop
  | one accepts => ∀ letter, accepts letter → starts letter
  | many accepts least _ => 0 < least ∧ ∀ letter, accepts letter → starts letter
  | seq first _ => Opens starts first
  | alt first second => Opens starts first ∧ Opens starts second
  | _ => False

theorem nearWord_append {isWord : α → Bool} {side side' : List α} (piece : List α)
    (h : nearWord isWord side = nearWord isWord side') :
    nearWord isWord (piece ++ side) = nearWord isWord (piece ++ side') := by
  cases piece with
  | nil => exact h
  | cons letter rest => rfl

section Context

variable {pattern : Regex α} {behind taken ahead : List α}

theorem Takes.consumes (hPattern : Consumes pattern) (h : Takes pattern behind taken ahead) :
    taken ≠ [] := by
  induction pattern generalizing behind taken ahead with
  | empty => exact hPattern.elim
  | one accepts =>
      obtain ⟨letter, rfl, -⟩ := takes_one.mp h
      simp
  | many accepts least most =>
      have hLeast := (takes_many.mp h).2.1
      have hPos : 0 < least := hPattern
      rintro rfl
      simp at hLeast
      omega
  | seq first second ihFirst ihSecond =>
      obtain ⟨one, two, rfl, hFirst, hSecond⟩ := takes_seq.mp h
      rcases hPattern with hPattern | hPattern
      · have hOne := ihFirst hPattern hFirst
        simp [hOne]
      · have hTwo := ihSecond hPattern hSecond
        simp [hTwo]
  | alt first second ihFirst ihSecond =>
      rcases takes_alt.mp h with h | h
      · exact ihFirst hPattern.1 h
      · exact ihSecond hPattern.2 h
  | boundary isWord => exact hPattern.elim

theorem Takes.rejects {letter : α} (hPattern : Rejects letter pattern)
    (h : Takes pattern behind taken ahead) : letter ∉ taken := by
  induction pattern generalizing behind taken ahead with
  | empty =>
      rw [takes_empty.mp h]
      exact List.not_mem_nil
  | one accepts =>
      obtain ⟨other, rfl, hAccepts⟩ := takes_one.mp h
      have hNot : accepts letter = false := hPattern
      rintro hMem
      rw [List.mem_singleton.mp hMem, hAccepts] at hNot
      exact absurd hNot (by decide)
  | many accepts least most =>
      have hAll := (takes_many.mp h).1
      have hNot : accepts letter = false := hPattern
      intro hMem
      rw [hAll letter hMem] at hNot
      exact absurd hNot (by decide)
  | seq first second ihFirst ihSecond =>
      obtain ⟨one, two, rfl, hFirst, hSecond⟩ := takes_seq.mp h
      have hOne := ihFirst hPattern.1 hFirst
      have hTwo := ihSecond hPattern.2 hSecond
      simp [hOne, hTwo]
  | alt first second ihFirst ihSecond =>
      rcases takes_alt.mp h with h | h
      · exact ihFirst hPattern.1 h
      · exact ihSecond hPattern.2 h
  | boundary isWord =>
      rw [(takes_boundary.mp h).1]
      exact List.not_mem_nil

theorem Takes.opens {starts : α → Bool} (hPattern : Opens starts pattern)
    (h : Takes pattern behind taken ahead) : ∃ letter rest, taken = letter :: rest ∧
      starts letter := by
  induction pattern generalizing behind taken ahead with
  | empty => exact hPattern.elim
  | one accepts =>
      obtain ⟨letter, rfl, hAccepts⟩ := takes_one.mp h
      exact ⟨letter, [], rfl, hPattern letter hAccepts⟩
  | many accepts least most =>
      obtain ⟨hAll, hLeast, -⟩ := takes_many.mp h
      have hPos : 0 < least := hPattern.1
      cases taken with
      | nil =>
          simp at hLeast
          omega
      | cons letter rest => exact ⟨letter, rest, rfl, hPattern.2 letter (hAll letter (by simp))⟩
  | seq first second ihFirst ihSecond =>
      obtain ⟨one, two, rfl, hFirst, -⟩ := takes_seq.mp h
      obtain ⟨letter, rest, rfl, hStarts⟩ := ihFirst hPattern hFirst
      exact ⟨letter, rest ++ two, rfl, hStarts⟩
  | alt first second ihFirst ihSecond =>
      rcases takes_alt.mp h with h | h
      · exact ihFirst hPattern.1 h
      · exact ihSecond hPattern.2 h
  | boundary isWord => exact hPattern.elim

/-- A match stays a match between other sides which agree in the class of the letters next to it; on
the side ahead only where the match looks there. -/
theorem Takes.moved {isWord : α → Bool} {behind' ahead' : List α}
    (hPattern : Bounded isWord pattern)
    (hBehind : nearWord isWord behind' = nearWord isWord behind)
    (hAhead : Blind pattern ∨ nearWord isWord ahead' = nearWord isWord ahead)
    (h : Takes pattern behind taken ahead) : Takes pattern behind' taken ahead' := by
  induction pattern generalizing behind behind' taken ahead ahead' with
  | empty => exact takes_empty.mpr (takes_empty.mp h)
  | one accepts => exact takes_one.mpr (takes_one.mp h)
  | many accepts least most => exact takes_many.mpr (takes_many.mp h)
  | seq first second ihFirst ihSecond =>
      obtain ⟨one, two, rfl, hFirst, hSecond⟩ := takes_seq.mp h
      have hMiddle : Blind first ∨
          nearWord isWord (two ++ ahead') = nearWord isWord (two ++ ahead) := by
        rcases hAhead with ⟨-, hBlind | hConsumes⟩ | hAhead
        · exact .inl hBlind
        · -- The second pattern takes a letter, and this is what the first one sees.
          have hTwo := hSecond.consumes hConsumes
          cases two with
          | nil => exact absurd rfl hTwo
          | cons letter rest => exact .inr rfl
        · exact .inr (nearWord_append two hAhead)
      have hLast : Blind second ∨ nearWord isWord ahead' = nearWord isWord ahead :=
        hAhead.imp_left And.left
      have hSides : nearWord isWord (one.reverse ++ behind') =
          nearWord isWord (one.reverse ++ behind) := nearWord_append one.reverse hBehind
      exact takes_seq.mpr ⟨one, two, rfl, ihFirst hPattern.1 hBehind hMiddle hFirst,
        ihSecond hPattern.2 hSides hLast hSecond⟩
  | alt first second ihFirst ihSecond =>
      rw [takes_alt] at h ⊢
      rcases h with h | h
      · exact .inl (ihFirst hPattern.1 hBehind (hAhead.imp_left And.left) h)
      · exact .inr (ihSecond hPattern.2 hBehind (hAhead.imp_left And.right) h)
  | boundary other =>
      obtain rfl : other = isWord := hPattern
      obtain ⟨rfl, hBoundary⟩ := takes_boundary.mp h
      have hAhead : nearWord other ahead' = nearWord other ahead :=
        hAhead.resolve_left fun hBlind => hBlind
      exact takes_boundary.mpr ⟨rfl, by rwa [hBehind, hAhead]⟩

end Context

/-! ## Greedy repetition -/

theorem manyFrom_zero_ne_nil {accepts : α → Bool} {behind ahead : List α} :
    manyFrom accepts 0 none behind ahead ≠ [] := by
  cases ahead <;> simp [manyFrom]

/-- The preferred match of an unbounded repetition stops before a letter which it does not
accept. -/
theorem manyFrom_greedy {accepts : α → Bool} {least : Nat} {behind ahead : List α}
    {stop : Cursor α} (h : (manyFrom accepts least none behind ahead).head? = some stop)
    {letter : α} {rest : List α} (hAhead : stop.ahead = letter :: rest) :
    accepts letter = false := by
  induction ahead generalizing least behind with
  | nil =>
      by_cases hLeast : least = 0 <;> simp [manyFrom, hLeast] at h
      rw [← h] at hAhead
      cases hAhead
  | cons first others ih =>
      by_cases hAccepts : accepts first
      · have hList : manyFrom accepts least none behind (first :: others) =
            manyFrom accepts (least - 1) none (first :: behind) others ++
              if least = 0 then [⟨behind, first :: others⟩] else [] := by
          rw [manyFrom, if_pos ⟨by simp, hAccepts⟩]
          rfl
        rw [hList, List.head?_append] at h
        cases hHead : (manyFrom accepts (least - 1) none (first :: behind) others).head? with
        | some longer =>
            rw [hHead] at h
            cases h
            exact ih hHead
        | none =>
            have hNone := List.head?_eq_none_iff.mp hHead
            have hLeast : least ≠ 0 := by
              rintro rfl
              exact manyFrom_zero_ne_nil hNone
            rw [hHead, if_neg hLeast] at h
            cases h
      · rw [manyFrom, if_neg (fun h => hAccepts h.2), List.nil_append] at h
        split at h
        · cases h
          cases hAhead
          simpa using hAccepts
        · cases h

theorem many_one_ne_nil {accepts : α → Bool} {behind ahead : List α} :
    (many accepts 1 none).stops ⟨behind, ahead⟩ ≠ [] ↔ ahead.head?.any accepts := by
  cases ahead with
  | nil => simp [stops, manyFrom]
  | cons letter rest =>
      by_cases hAccepts : accepts letter
      · simp [stops, manyFrom, hAccepts, manyFrom_zero_ne_nil]
      · simp [stops, manyFrom, hAccepts]

theorem boundary_ne_nil {isWord : α → Bool} {behind ahead : List α} :
    (boundary isWord).stops ⟨behind, ahead⟩ ≠ [] ↔
      nearWord isWord behind ≠ nearWord isWord ahead := by
  unfold nearWord
  by_cases hSame : behind.head?.any isWord = ahead.head?.any isWord <;> simp [stops, hSame]

/-! ## Fences -/

/-- No part of a text matches. -/
def Absent (pattern : Regex α) (text : List α) : Prop :=
  ∀ behind ahead, text = behind.reverse ++ ahead → pattern.stops ⟨behind, ahead⟩ = []

/-- Nothing is substituted where nothing matches. -/
theorem Absent.sub_eq {pattern : Regex α} {text : List α} (h : Absent pattern text)
    (replacement : List α) : pattern.sub replacement text = text := by
  have hFrom (fuel : Nat) (behind ahead : List α) (hText : text = behind.reverse ++ ahead) :
      subFrom pattern replacement fuel ⟨behind, ahead⟩ = ahead := by
    induction fuel generalizing behind ahead with
    | zero => rfl
    | succ fuel ih =>
        cases ahead with
        | nil => rfl
        | cons letter rest =>
            rw [subFrom, h behind (letter :: rest) hText]
            have hRest := ih (letter :: behind) rest (by simpa using hText)
            simpa using hRest
  exact hFrom _ [] text rfl

/-- A replacement which starts with the fence and inside which no match can start: a match starts
with a start letter at a boundary. -/
structure Fence (isWord starts : α → Bool) (fence : α) (replacement : List α) : Prop where
  opens : replacement.head? = some fence
  closes : nearWord isWord replacement.reverse = false
  inside : ∀ earlier letter rest, replacement = earlier ++ letter :: rest → starts letter →
    earlier ≠ [] ∧ nearWord isWord earlier.reverse = isWord letter

/-- A pattern which matches a body, and then a tail which only depends on the letters next to it. -/
structure Fenced (isWord starts : α → Bool) (fence : α) (pattern body tail : Regex α) : Prop where
  split : ∀ at_, pattern.stops at_ = (seq body tail).stops at_
  bounded : Bounded isWord body
  blind : Blind body
  rejects : Rejects fence body
  /-- The body starts with a start letter at a boundary. -/
  opens : ∀ behind taken ahead, Takes body behind taken ahead → ∃ letter rest,
    taken = letter :: rest ∧ starts letter ∧ nearWord isWord behind ≠ isWord letter
  near : ∀ behind behind' ahead ahead', behind.head? = behind'.head? →
    ahead.head? = ahead'.head? → tail.stops ⟨behind, ahead⟩ ≠ [] →
      tail.stops ⟨behind', ahead'⟩ ≠ []
  /-- A tail at the fence is also one at a match which the fence has replaced. -/
  past : ∀ behind later letter rest, starts letter → nearWord isWord behind ≠ isWord letter →
    tail.stops ⟨behind, fence :: later⟩ ≠ [] → tail.stops ⟨behind, letter :: rest⟩ ≠ []
  /-- The preferred match does not stop between two letters of a word. -/
  ends : ∀ at_ stop letter rest, (pattern.stops at_).head? = some stop →
    stop.ahead = letter :: rest → starts letter → isWord letter →
      nearWord isWord stop.behind = false

section Fences

variable {isWord starts : α → Bool} {fence : α} {pattern body tail : Regex α}
  {behind ahead : List α}

/-- Where the body of a pattern matches. -/
theorem Fenced.takes (h : Fenced isWord starts fence pattern body tail)
    (hStops : pattern.stops ⟨behind, ahead⟩ ≠ []) : ∃ taken later, ahead = taken ++ later ∧
      Takes body behind taken later ∧ tail.stops ⟨taken.reverse ++ behind, later⟩ ≠ [] := by
  rw [h.split] at hStops
  obtain ⟨stop, hStop⟩ := List.exists_mem_of_ne_nil _ hStops
  obtain ⟨middle, hMiddle, hTail⟩ := List.mem_flatMap.mp hStop
  obtain ⟨taken, hAhead, hBehind, hTakes⟩ := takes_of_mem hMiddle
  refine ⟨taken, middle.ahead, hAhead, hTakes, ?_⟩
  rw [← hBehind]
  exact List.ne_nil_of_mem hTail

theorem Fenced.of_takes (h : Fenced isWord starts fence pattern body tail) {taken later : List α}
    (hTakes : Takes body behind taken later)
    (hTail : tail.stops ⟨taken.reverse ++ behind, later⟩ ≠ []) :
    pattern.stops ⟨behind, taken ++ later⟩ ≠ [] := by
  rw [h.split]
  obtain ⟨stop, hStop⟩ := List.exists_mem_of_ne_nil _ hTail
  exact List.ne_nil_of_mem (List.mem_flatMap.mpr ⟨_, hTakes, hStop⟩)

/-- A match starts with a start letter at a boundary. -/
theorem Fenced.start (h : Fenced isWord starts fence pattern body tail)
    (hStops : pattern.stops ⟨behind, ahead⟩ ≠ []) : ∃ letter rest, ahead = letter :: rest ∧
      starts letter ∧ nearWord isWord behind ≠ isWord letter := by
  obtain ⟨taken, later, rfl, hTakes, -⟩ := h.takes hStops
  obtain ⟨letter, rest, rfl, hStarts, hNear⟩ := h.opens _ _ _ hTakes
  exact ⟨letter, rest ++ later, rfl, hStarts, hNear⟩

theorem Fenced.shorter (h : Fenced isWord starts fence pattern body tail) {stop : Cursor α}
    (hStop : stop ∈ pattern.stops ⟨behind, ahead⟩) : stop.ahead.length < ahead.length := by
  rw [h.split] at hStop
  obtain ⟨middle, hMiddle, hTail⟩ := List.mem_flatMap.mp hStop
  obtain ⟨taken, rfl, -, hTakes⟩ := takes_of_mem hMiddle
  obtain ⟨letter, rest, rfl, -⟩ := h.opens _ _ _ hTakes
  have hSuffix := (stops_suffix hTail).length_le
  simp
  omega

/-- One step of a substitution: a match is replaced, or a letter is passed over. -/
theorem Fenced.subFrom_cases (h : Fenced isWord starts fence pattern body tail)
    (replacement : List α) (fuel : Nat) (letter : α) (rest : List α) :
    (pattern.stops ⟨behind, letter :: rest⟩ = [] ∧
      subFrom pattern replacement (fuel + 1) ⟨behind, letter :: rest⟩ =
        letter :: subFrom pattern replacement fuel ⟨letter :: behind, rest⟩) ∨
    ∃ stop, (pattern.stops ⟨behind, letter :: rest⟩).head? = some stop ∧
      stop.ahead.length < rest.length + 1 ∧
      subFrom pattern replacement (fuel + 1) ⟨behind, letter :: rest⟩ =
        replacement ++ subFrom pattern replacement fuel stop := by
  cases hHead : (pattern.stops ⟨behind, letter :: rest⟩).head? with
  | none =>
      left
      constructor
      · exact List.head?_eq_none_iff.mp hHead
      · rw [subFrom, hHead]
  | some stop =>
      right
      have hShorter := h.shorter (List.mem_of_mem_head? hHead)
      refine ⟨stop, rfl, hShorter, ?_⟩
      rw [subFrom, hHead]
      exact if_pos hShorter

/-- Up to the first match a substitution leaves a text as it is. -/
theorem Fenced.subFrom_same (h : Fenced isWord starts fence pattern body tail)
    (replacement : List α) (fuel : Nat) :
    ∃ same, (subFrom pattern replacement fuel ⟨behind, ahead⟩ = same ∧ ahead = same) ∨
      ∃ later rest, subFrom pattern replacement fuel ⟨behind, ahead⟩ =
        same ++ replacement ++ later ∧ ahead = same ++ rest ∧
        pattern.stops ⟨same.reverse ++ behind, rest⟩ ≠ [] := by
  induction fuel generalizing behind ahead with
  | zero => exact ⟨ahead, .inl ⟨rfl, rfl⟩⟩
  | succ fuel ih =>
      cases ahead with
      | nil => exact ⟨[], .inl ⟨rfl, rfl⟩⟩
      | cons letter rest =>
          rcases h.subFrom_cases replacement fuel letter rest with ⟨-, hSub⟩ | ⟨stop, hHead, -, hSub⟩
          · obtain ⟨same, ⟨hSame, hRest⟩ | ⟨later, other, hSame, hRest, hStops⟩⟩ :=
              @ih (letter :: behind) rest
            · exact ⟨letter :: same, .inl ⟨by rw [hSub, hSame], by rw [hRest]⟩⟩
            · refine ⟨letter :: same, .inr ⟨later, other, by rw [hSub, hSame]; rfl, ?_, ?_⟩⟩
              · rw [hRest]
                rfl
              · simpa using hStops
          · refine ⟨[], .inr ⟨subFrom pattern replacement fuel stop, letter :: rest, hSub, rfl, ?_⟩⟩
            intro hNone
            rw [List.reverse_nil, List.nil_append] at hNone
            rw [hNone] at hHead
            cases hHead

/-! ## Matches after a substitution -/

variable {replacement : List α} {other otherBody otherTail : Regex α}

/-- Two ways to cut a text in two: the second cut is behind the first one, or inside the first
part. -/
theorem append_split {front back earlier later : List α} (h : front ++ back = earlier ++ later) :
    (∃ gap, earlier = front ++ gap ∧ back = gap ++ later) ∨
      ∃ letter gap, front = earlier ++ letter :: gap ∧ later = letter :: gap ++ back := by
  rcases List.append_eq_append_iff.mp h with ⟨gap, hGap, hBack⟩ | ⟨gap, hGap, hLater⟩
  · exact .inl ⟨gap, hGap, hBack⟩
  · cases gap with
    | nil => exact .inl ⟨[], by simpa using hGap.symm, by simpa using hLater.symm⟩
    | cons letter gap => exact .inr ⟨letter, gap, hGap, hLater⟩

/-- What is behind a position after a substitution says the same to a match which starts there as
what was behind it before. -/
def SidesAgree (isWord starts : α → Bool) (behind behind' ahead : List α) : Prop :=
  ∀ letter rest, ahead = letter :: rest → starts letter → nearWord isWord behind' ≠ isWord letter →
    nearWord isWord behind' = nearWord isWord behind

/-- A match which starts at a letter that the substitution passes over was a match before. -/
theorem Fenced.before (h : Fenced isWord starts fence pattern body tail)
    (hOther : Fenced isWord starts fence other otherBody otherTail)
    (hFence : Fence isWord starts fence replacement) {behind' rest : List α} {letter : α}
    {fuel : Nat} (hAgree : SidesAgree isWord starts behind behind' (letter :: rest))
    (hStops : other.stops
      ⟨behind', letter :: subFrom pattern replacement fuel ⟨letter :: behind, rest⟩⟩ ≠ []) :
    other.stops ⟨behind, letter :: rest⟩ ≠ [] := by
  obtain ⟨start, rest', hStart, hStarts, hNear⟩ := hOther.start hStops
  obtain ⟨rfl, -⟩ := List.cons.inj hStart
  have hSides : nearWord isWord behind = nearWord isWord behind' :=
    (hAgree letter rest rfl hStarts hNear).symm
  obtain ⟨taken, later, hAhead, hTakes, hTail⟩ := hOther.takes hStops
  obtain ⟨first, more, rfl, -, -⟩ := hOther.opens _ _ _ hTakes
  have hMoved (ahead' : List α) : Takes otherBody behind (first :: more) ahead' :=
    hTakes.moved hOther.bounded hSides (.inl hOther.blind)
  have hHead (side : List α) : ((first :: more).reverse ++ behind').head? =
      ((first :: more).reverse ++ side).head? := by
    cases hReverse : (first :: more).reverse with
    | nil => simp at hReverse
    | cons last front => rfl
  obtain ⟨same, ⟨hSame, hRest⟩ | ⟨last, before, hSame, hRest, hReplaced⟩⟩ :=
    @h.subFrom_same _ _ _ _ _ _ _ (letter :: behind) rest replacement fuel
  · -- Nothing is replaced any more, so the text ahead is the one from before.
    rw [hSame, ← hRest] at hAhead
    rw [hAhead]
    exact hOther.of_takes (hMoved later) (hOther.near _ _ _ _ (hHead behind) rfl hTail)
  · -- The body cannot reach into the replacement, since it rejects the fence.
    obtain ⟨tailOf, hReplacement⟩ : ∃ tailOf, replacement = fence :: tailOf := by
      have hOpens := hFence.opens
      cases replacement with
      | nil => cases hOpens
      | cons letter tailOf =>
          cases hOpens
          exact ⟨tailOf, rfl⟩
    have hApart : ∃ gap, letter :: same = (first :: more) ++ gap ∧
        later = gap ++ (replacement ++ last) := by
      rw [hSame, List.append_assoc, ← List.cons_append] at hAhead
      rcases append_split hAhead.symm with ⟨gap, hTaken, hLater⟩ | ⟨next, gap, hTaken, hLater⟩
      · exact ⟨gap, hTaken, hLater⟩
      · have hFirst : next = fence := by
          rw [hReplacement, List.cons_append, List.cons_append] at hLater
          exact (List.cons.inj hLater).1.symm
        refine absurd ?_ (hTakes.rejects hOther.rejects)
        rw [hTaken, hFirst]
        simp
    obtain ⟨gap, hTaken, rfl⟩ := hApart
    have hBefore : letter :: rest = (first :: more) ++ (gap ++ before) := by
      rw [hRest, ← List.cons_append, hTaken, List.append_assoc]
    rw [hBefore]
    refine hOther.of_takes (hMoved _) ?_
    cases gap with
    | cons next gap =>
        exact hOther.near _ _ (next :: gap ++ (replacement ++ last)) _ (hHead behind) rfl hTail
    | nil =>
        -- The tail stands at the fence, where a match used to start.
        obtain ⟨start, rest', rfl, hStarts, hNear⟩ := h.start hReplaced
        rw [List.append_nil] at hTaken
        rw [← hTaken]
        have hWord : nearWord isWord ((letter :: same).reverse ++ behind) ≠ isWord start := by
          simpa using hNear
        refine hOther.past _ (tailOf ++ last) start rest' hStarts hWord ?_
        rw [hTaken]
        refine hOther.near _ _ _ _ (hHead behind) ?_ hTail
        rw [hReplacement]
        rfl

/-- A replacement in which a start letter always follows a letter of its own class. -/
theorem Fence.of_isChain {rest : List α} (hFence : starts fence = false)
    (hCloses : nearWord isWord (fence :: rest).reverse = false)
    (hChain : (fence :: rest).IsChain fun first second => starts second →
      isWord first = isWord second) : Fence isWord starts fence (fence :: rest) := by
  refine ⟨rfl, hCloses, ?_⟩
  intro earlier letter later hSplit hStarts
  rcases List.eq_nil_or_concat earlier with rfl | ⟨init, last, rfl⟩
  · obtain ⟨rfl, -⟩ := List.cons.inj hSplit
    rw [hFence] at hStarts
    exact absurd hStarts (by decide)
  · rw [List.concat_eq_append, List.append_assoc, List.singleton_append] at hSplit
    rw [hSplit] at hChain
    have hPair := (List.isChain_append_cons_cons.mp hChain).2.1 hStarts
    constructor
    · simp
    · rw [List.concat_eq_append, List.reverse_append]
      exact hPair

theorem Fence.nearWord_reverse (h : Fence isWord starts fence replacement) (side : List α) :
    nearWord isWord (replacement.reverse ++ side) = false := by
  have hOpens := h.opens
  have hCloses := h.closes
  cases hReverse : replacement.reverse with
  | nil =>
      rw [List.reverse_eq_nil_iff.mp hReverse] at hOpens
      cases hOpens
  | cons last init =>
      rw [hReverse] at hCloses
      exact hCloses

/-- A match after a substitution was a match before, at a position which has been passed over. -/
theorem Fenced.origin (h : Fenced isWord starts fence pattern body tail)
    (hOther : Fenced isWord starts fence other otherBody otherTail)
    (hFence : Fence isWord starts fence replacement) {fuel : Nat} {behind' earlier later : List α}
    (hFuel : ahead.length ≤ fuel) (hAgree : SidesAgree isWord starts behind behind' ahead)
    (hSub : subFrom pattern replacement fuel ⟨behind, ahead⟩ = earlier ++ later)
    (hStops : other.stops ⟨earlier.reverse ++ behind', later⟩ ≠ []) :
    ∃ taken rest, ahead = taken ++ rest ∧ other.stops ⟨taken.reverse ++ behind, rest⟩ ≠ [] ∧
      pattern.stops ⟨taken.reverse ++ behind, rest⟩ = [] := by
  induction fuel generalizing behind behind' ahead earlier with
  | zero =>
      have hAhead : ahead = [] := List.length_eq_zero_iff.mp (by omega)
      obtain ⟨letter, rest, rfl, -⟩ := hOther.start hStops
      rw [hAhead] at hSub
      simp [subFrom] at hSub
  | succ fuel ih =>
      cases ahead with
      | nil =>
          obtain ⟨letter, rest, rfl, -⟩ := hOther.start hStops
          simp [subFrom] at hSub
      | cons letter rest =>
          rw [List.length_cons] at hFuel
          rcases h.subFrom_cases replacement fuel letter rest with
            ⟨hNone, hCase⟩ | ⟨stop, hHead, hShorter, hCase⟩
          · rw [hCase] at hSub
            cases earlier with
            | nil =>
                rw [List.nil_append] at hSub
                subst hSub
                exact ⟨[], letter :: rest, rfl, h.before hOther hFence hAgree hStops, hNone⟩
            | cons first earlier =>
                rw [List.cons_append] at hSub
                obtain ⟨rfl, hLater⟩ := List.cons.inj hSub
                have hSame : SidesAgree isWord starts (letter :: behind) (letter :: behind') rest :=
                  fun _ _ _ _ _ => rfl
                rw [List.reverse_cons, List.append_assoc] at hStops
                obtain ⟨taken, other', hRest, hThere, hPassed⟩ := ih (by omega) hSame hLater hStops
                refine ⟨letter :: taken, other', by rw [hRest]; rfl, ?_, ?_⟩
                · simpa using hThere
                · simpa using hPassed
          · rw [hCase] at hSub
            obtain ⟨stopBehind, stopAhead⟩ := stop
            obtain ⟨eaten, hEaten, hBehind⟩ := stops_taken (List.mem_of_mem_head? hHead)
            dsimp only at hEaten hBehind hShorter hSub
            rcases append_split hSub with ⟨gap, hGap, hLater⟩ | ⟨next, back, hSplit, hLater⟩
            · -- The match starts behind the replacement.
              have hSidesStop : SidesAgree isWord starts stopBehind
                  (replacement.reverse ++ behind') stopAhead := by
                intro start back hStopAhead hStarts hNear
                rw [hFence.nearWord_reverse] at hNear ⊢
                have hWord : isWord start = true := by
                  cases hIs : isWord start with
                  | true => rfl
                  | false => exact absurd hIs.symm hNear
                exact (h.ends _ _ start back hHead hStopAhead hStarts hWord).symm
              rw [hGap, List.reverse_append, List.append_assoc] at hStops
              obtain ⟨taken, other', hRest, hThere, hPassed⟩ :=
                ih (by omega) hSidesStop hLater hStops
              refine ⟨eaten ++ taken, other', ?_, ?_, ?_⟩
              · rw [hEaten, hRest, List.append_assoc]
              · rw [hBehind] at hThere
                simpa using hThere
              · rw [hBehind] at hPassed
                simpa using hPassed
            · -- No match starts inside the replacement.
              obtain ⟨start, _, hStart, hStarts, hNear⟩ := hOther.start hStops
              rw [hLater, List.cons_append] at hStart
              obtain ⟨rfl, -⟩ := List.cons.inj hStart
              obtain ⟨hNe, hWord⟩ := hFence.inside _ _ _ hSplit hStarts
              obtain ⟨last, init, hReverse⟩ : ∃ last init, earlier.reverse = last :: init :=
                List.exists_cons_of_ne_nil (by simpa using hNe)
              rw [hReverse] at hNear hWord
              exact absurd hWord hNear

theorem Fenced.origin_sub (h : Fenced isWord starts fence pattern body tail)
    (hOther : Fenced isWord starts fence other otherBody otherTail)
    (hFence : Fence isWord starts fence replacement) {text : List α}
    (hSub : pattern.sub replacement text = behind.reverse ++ ahead)
    (hStops : other.stops ⟨behind, ahead⟩ ≠ []) :
    ∃ taken rest, text = taken ++ rest ∧ other.stops ⟨taken.reverse, rest⟩ ≠ [] ∧
      pattern.stops ⟨taken.reverse, rest⟩ = [] := by
  have hStart : SidesAgree isWord starts ([] : List α) [] text := fun _ _ _ _ _ => rfl
  have hStopsHere : other.stops ⟨behind.reverse.reverse ++ [], ahead⟩ ≠ [] := by
    rwa [List.reverse_reverse, List.append_nil]
  simpa using h.origin hOther hFence (Nat.le_refl _) hStart hSub hStopsHere

/-- A pattern which has been substituted does not match. -/
theorem Fenced.absent_sub (h : Fenced isWord starts fence pattern body tail)
    (hFence : Fence isWord starts fence replacement) (text : List α) :
    Absent pattern (pattern.sub replacement text) := by
  intro behind ahead hSub
  by_contra hStops
  obtain ⟨taken, rest, -, hThere, hPassed⟩ := h.origin_sub h hFence hSub hStops
  exact hThere hPassed

/-- A substitution adds no match of another pattern. -/
theorem Fenced.absent_other (h : Fenced isWord starts fence pattern body tail)
    (hOther : Fenced isWord starts fence other otherBody otherTail)
    (hFence : Fence isWord starts fence replacement) {text : List α} (hText : Absent other text) :
    Absent other (pattern.sub replacement text) := by
  intro behind ahead hSub
  by_contra hStops
  obtain ⟨taken, rest, hSplit, hThere, -⟩ := h.origin_sub hOther hFence hSub hStops
  exact hThere (hText _ _ (by rw [List.reverse_reverse]; exact hSplit))

/-- A list of patterns with their replacements, all of them fenced in the same way. -/
def AllFenced (isWord starts : α → Bool) (fence : α)
    (patterns : List (Regex α × List α)) : Prop :=
  ∀ entry ∈ patterns, Fence isWord starts fence entry.2 ∧
    ∃ body tail, Fenced isWord starts fence entry.1 body tail

/-- After the substitution of several patterns none of them matches. -/
theorem absent_foldl {patterns : List (Regex α × List α)}
    (h : AllFenced isWord starts fence patterns) (text : List α) :
    ∀ entry ∈ patterns,
      Absent entry.1 (patterns.foldl (fun text entry => entry.1.sub entry.2 text) text) := by
  -- What has been substituted already stays absent.
  have hStays (patterns : List (Regex α × List α)) (hAll : AllFenced isWord starts fence patterns)
      {other otherBody otherTail : Regex α}
      (hOther : Fenced isWord starts fence other otherBody otherTail) (text : List α)
      (hText : Absent other text) :
      Absent other (patterns.foldl (fun text entry => entry.1.sub entry.2 text) text) := by
    induction patterns generalizing text with
    | nil => exact hText
    | cons entry rest ih =>
        obtain ⟨hFence, body, tail, hEntry⟩ := hAll entry (by simp)
        have hRest : AllFenced isWord starts fence rest :=
          fun entry hMem => hAll entry (List.mem_cons_of_mem _ hMem)
        exact ih hRest _ (hEntry.absent_other hOther hFence hText)
  induction patterns generalizing text with
  | nil => exact fun _ hMem => absurd hMem List.not_mem_nil
  | cons entry rest ih =>
      have hRest : AllFenced isWord starts fence rest :=
        fun entry hMem => h entry (List.mem_cons_of_mem _ hMem)
      obtain ⟨hFence, body, tail, hEntry⟩ := h entry (by simp)
      intro other hMem
      rw [List.foldl_cons]
      rcases List.mem_cons.mp hMem with rfl | hMem
      · exact hStays rest hRest hEntry _ (hEntry.absent_sub hFence text)
      · exact ih hRest _ other hMem

end Fences

end Regex

end Ecrke
