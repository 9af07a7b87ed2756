import Ecrke.Durable.Sequential

/-!
# Programs under a monitor

A monitor reads the log of a program which runs alone, one step after the other, and keeps a note of
what it has seen.  Conditions on the order of events are conditions on its note.

* `watch` -- the note after a log.
* `Watched E Q p s g` -- started in `s` with the note `g`, every step of the program is in `E` of
  the note before it, and where the program ends, `Q` holds of its result, of the state and of the note.
* `Watched.of_alone` -- a program whose steps the monitor ignores.
* `Watched.of_keeps` -- a program whose footprint the monitor ignores.
* `Watched.bind`, `Watched.tryCatch`, `Watched.ite`, `Watched.forM`, `Watched.foldlM`,
  `Watched.log`, `Watched.query` -- the rules.
* `Watched.exec` -- what it says about executions.
-/

namespace Ecrke
namespace Durable

variable {S : Signature} {G α β : Type}

/-- The note of a monitor after a log. -/
def watch (monitor : G → Moment S → G) (blank : G) (l : Log S) : G := l.foldl monitor blank

@[simp] theorem watch_append (monitor : G → Moment S → G) (blank : G) (l : Log S) (m : Moment S) :
    watch monitor blank (l ++ [m]) = monitor (watch monitor blank l) m := by
  simp [watch]

/-- The contract of a program under a monitor. -/
def Contract.watched (monitor : G → Moment S → G) (blank : G) (E : G → Moment S → Prop) :
    Contract S :=
  .alone fun l m => E (watch monitor blank l) m

/-- Run alone under a monitor, a program takes only steps in `E`, and it ends in `Q`. -/
def Watched (monitor : G → Moment S → G) (E : G → Moment S → Prop)
    (Q : Except S.Err α → S.State → G → Prop) (p : Prog S α) (s : S.State) (g : G) : Prop :=
  ∀ blank l, watch monitor blank l = g →
    wp (.watched monitor blank E) (fun r t l' => Q r t (watch monitor blank l')) p s l

namespace Watched

variable {monitor : G → Moment S → G} {E : G → Moment S → Prop} {s : S.State} {g : G}

theorem done {Q : Except S.Err α → S.State → G → Prop} {value : α} (h : Q (.ok value) s g) :
    Watched monitor E Q (.done value) s g := by
  rintro blank l rfl
  exact .done h

theorem raise {Q : Except S.Err α → S.State → G → Prop} {error : S.Err}
    (h : Q (.error error) s g) : Watched monitor E Q (.raise error) s g := by
  rintro blank l rfl
  exact .raise h

theorem post {Q Q' : Except S.Err α → S.State → G → Prop} {p : Prog S α}
    (h : Watched monitor E Q p s g) (hQ : ∀ r t g, Q r t g → Q' r t g) :
    Watched monitor E Q' p s g :=
  fun blank l hl => wp_post (h blank l hl) fun r t _ hr => hQ r t _ hr

/-- A program whose steps leave the note as it is. -/
theorem of_alone {F : Moment S → Prop} {Q : Except S.Err α → S.State → Prop} {p : Prog S α}
    (h : Alone F Q p s) (hNote : ∀ m, F m → monitor g m = g) (hE : ∀ m, F m → E g m) :
    Watched monitor E (fun r t g' => Q r t ∧ g' = g) p s g := by
  rintro blank l rfl
  -- The induction is on the program; the note stays that of the log at its start.
  generalize hg : watch monitor blank l = g at hNote hE
  have hRun := h l
  clear h
  induction hRun with
  | done h => exact .done ⟨h, hg⟩
  | raise h => exact .raise ⟨h, hg⟩
  | @step p s l hp hNow hNext ih =>
      have hAdmits (m : Moment S)
          (hm : (Contract.watched monitor blank E).Admits s l m) :
          (Contract.alone fun _ m => F m).Admits s l m := by
        simpa [Contract.watched] using hm
      refine .step hp ?_ ?_
      · intro m q hStep hm
        have hF := hNow m q hStep (hAdmits m hm)
        show E (watch monitor blank l) m
        rw [hg]
        exact hE m hF
      · intro m q hStep hm
        have hF := hNow m q hStep (hAdmits m hm)
        exact ih m q hStep (hAdmits m hm) (by rw [watch_append, hg, hNote m hF])

/-- A program whose footprint leaves the note as it is. -/
theorem of_keeps {R : Moment S → Prop} {p : Prog S α} (h : Keeps R p)
    (hNote : ∀ m, R m → monitor g m = g) (hE : ∀ m, R m → E g m) :
    Watched monitor E (fun _ _ g' => g' = g) p s g :=
  (of_alone (Alone.of_keeps (T := fun _ _ => True) (fun _ => trivial) (fun _ _ _ _ _ => trivial)
    (fun _ _ => trivial) h (fun _ hm => hm) fun _ _ _ => trivial) hNote hE).post
      fun _ _ _ hg => (hg : True ∧ _).2

theorem bind {Q : Except S.Err β → S.State → G → Prop}
    (mid : Except S.Err α → S.State → G → Prop) {p : Prog S α} {f : α → Prog S β}
    (hFirst : Watched monitor E mid p s g)
    (hOk : ∀ value t g, mid (.ok value) t g → Watched monitor E Q (f value) t g)
    (hError : ∀ error t g, mid (.error error) t g → Q (.error error) t g) :
    Watched monitor E Q (p.bind f) s g :=
  fun blank l hl => wp_bind _ (hFirst blank l hl)
    (fun value t l' h => hOk value t _ h blank l' rfl) fun error t _ h => hError error t _ h

theorem tryCatch {Q : Except S.Err α → S.State → G → Prop}
    (mid : Except S.Err α → S.State → G → Prop) {p : Prog S α} {handler : S.Err → Prog S α}
    (hBody : Watched monitor E mid p s g)
    (hOk : ∀ value t g, mid (.ok value) t g → Q (.ok value) t g)
    (hError : ∀ error t g, mid (.error error) t g → Watched monitor E Q (handler error) t g) :
    Watched monitor E Q (p.tryCatch handler) s g :=
  fun blank l hl => wp_tryCatch _ (hBody blank l hl) (fun value t _ h => hOk value t _ h)
    fun error t l' h => hError error t _ h blank l' rfl

theorem ite {Q : Except S.Err α → S.State → G → Prop} {c : Prop} [Decidable c] {p q : Prog S α}
    (hp : c → Watched monitor E Q p s g) (hq : ¬ c → Watched monitor E Q q s g) :
    Watched monitor E Q (if c then p else q) s g := by
  split
  · exact hp ‹_›
  · exact hq ‹_›

theorem forM {Q : Except S.Err PUnit → S.State → G → Prop} {body : α → Prog S PUnit}
    (I : List α → S.State → G → Prop)
    (hBody : ∀ item rest s g, I (item :: rest) s g →
      Watched monitor E (fun r t g' => match r with
        | .ok _ => I rest t g'
        | .error error => Q (.error error) t g') (body item) s g)
    (hDone : ∀ s g, I [] s g → Q (.ok ⟨⟩) s g) (items : List α) (h : I items s g) :
    Watched monitor E Q (items.forM body) s g := by
  induction items generalizing s g with
  | nil => exact done (hDone s g h)
  | cons item rest ih =>
      exact bind _ (hBody item rest s g h) (fun _ t g' ht => ih ht) (fun _ _ _ ht => ht)

theorem foldlM {Q : Except S.Err β → S.State → G → Prop} {body : β → α → Prog S β}
    (I : β → S.State → G → Prop)
    (hBody : ∀ item acc s g, I acc s g →
      Watched monitor E (fun r t g' => match r with
        | .ok acc' => I acc' t g'
        | .error error => Q (.error error) t g') (body acc item) s g)
    (hDone : ∀ acc s g, I acc s g → Q (.ok acc) s g) (items : List α) {acc : β} (h : I acc s g) :
    Watched monitor E Q (items.foldlM body acc) s g := by
  induction items generalizing acc s g with
  | nil => exact done (hDone acc s g h)
  | cons item rest ih =>
      rw [List.foldlM_cons, Prog.bind_def]
      exact bind _ (hBody item acc s g h) (fun _ t g' ht => ih ht) (fun _ _ _ ht => ht)

theorem query {question : S.Query} {Q : Except S.Err (S.Answer question) → S.State → G → Prop}
    (h : ∀ answer, E g ⟨s, .asked question answer, s⟩ ∧
      Q (.ok answer) s (monitor g ⟨s, .asked question answer, s⟩)) :
    Watched monitor E Q (Prog.query question) s g := by
  rintro blank l rfl
  refine wp_query fun answer t ht => ?_
  obtain rfl : s = t := by simpa [Contract.watched] using ht
  constructor
  · exact (h answer).1
  · rw [watch_append]
    exact (h answer).2

theorem log {event : S.Event} {Q : Except S.Err Unit → S.State → G → Prop}
    (hE : E g ⟨s, .wrote event, s⟩) (hQ : Q (.ok ()) s (monitor g ⟨s, .wrote event, s⟩)) :
    Watched monitor E Q (Prog.log event) s g := by
  rintro blank l rfl
  refine wp_log fun t ht => ?_
  obtain rfl : s = t := by simpa [Contract.watched] using ht
  exact ⟨hE, by rwa [watch_append]⟩

/-- Every step of an execution, cut off anywhere, is in `E` of the note before it. -/
theorem exec {Q : Except S.Err α → S.State → G → Prop} {p q : Prog S α} {t : S.State}
    {now : Log S} (h : Watched monitor E Q p s g) (hExec : Exec p s now q t) :
    (∀ earlier m later, now = earlier ++ m :: later → E (watch monitor g earlier) m) ∧
      ∀ value, q = .done value → Q (.ok value) t (watch monitor g now) := by
  obtain ⟨hAlong, hLeft⟩ := wp_exec (fun _ => rfl) hExec (h g [] rfl)
    (Contract.alone_granted _ [] now)
  constructor
  · rintro earlier m later rfl
    rw [Contract.along_append, List.nil_append] at hAlong
    exact hAlong.2.1
  · rintro value rfl
    simpa using hLeft

end Watched

end Durable
end Ecrke
