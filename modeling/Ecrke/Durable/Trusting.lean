import Ecrke.Durable.Recorded

/-!
# Programs whose surroundings keep their word

What the outside answers may be known beforehand.  A program is then proved for the executions in
which the answers are as expected.

* `Trusting given E Q p s` -- run alone, as long as its steps are in `given`, a program takes only
  steps in `E`, and it ends in `Q`.
* `Trusting.of_alone` -- what holds whatever the answers are.
* `Trusting.bind`, `Trusting.tryCatch`, `Trusting.ite`, `Trusting.foldlM` -- composed programs.
* `Trusting.query`, `Trusting.commit` -- single steps.
* `Trusting.exec` -- what it says about executions.
-/

namespace Ecrke
namespace Durable

variable {S : Signature} {α β : Type}

/-- Run alone from a state, as long as its steps are in `given`, a program takes only steps in `E`,
and it ends in `Q`. -/
def Trusting (given E : Moment S → Prop) (Q : Except S.Err α → S.State → Prop) (p : Prog S α)
    (s : S.State) : Prop :=
  ∀ l, wp (.alongside given fun _ m => E m) (fun r t _ => Q r t) p s l

namespace Trusting

variable {given E : Moment S → Prop} {s : S.State}

theorem done {Q : Except S.Err α → S.State → Prop} {value : α} (h : Q (.ok value) s) :
    Trusting given E Q (.done value) s :=
  fun _ => .done h

theorem raise {Q : Except S.Err α → S.State → Prop} {error : S.Err} (h : Q (.error error) s) :
    Trusting given E Q (.raise error) s :=
  fun _ => .raise h

theorem post {Q R : Except S.Err α → S.State → Prop} {p : Prog S α} (h : Trusting given E Q p s)
    (hQ : ∀ r t, Q r t → R r t) : Trusting given E R p s :=
  fun l => wp_post (h l) fun r t _ hr => hQ r t hr

/-- What holds whatever the answers are. -/
theorem of_alone {F : Moment S → Prop} {Q : Except S.Err α → S.State → Prop} {p : Prog S α}
    (h : Alone F Q p s) (hE : ∀ m, given m → F m → E m) : Trusting given E Q p s :=
  fun _ => wp_of_alone h (fun _ m => hE m) fun _ _ _ hr => hr

theorem bind {Q : Except S.Err β → S.State → Prop} (mid : Except S.Err α → S.State → Prop)
    {p : Prog S α} {f : α → Prog S β} (hFirst : Trusting given E mid p s)
    (hOk : ∀ value t, mid (.ok value) t → Trusting given E Q (f value) t)
    (hError : ∀ error t, mid (.error error) t → Q (.error error) t) :
    Trusting given E Q (p.bind f) s :=
  fun l => wp_bind _ (hFirst l) (fun value t l' h => hOk value t h l')
    fun error t _ h => hError error t h

theorem tryCatch {Q : Except S.Err α → S.State → Prop} (mid : Except S.Err α → S.State → Prop)
    {p : Prog S α} {handler : S.Err → Prog S α} (hBody : Trusting given E mid p s)
    (hOk : ∀ value t, mid (.ok value) t → Q (.ok value) t)
    (hError : ∀ error t, mid (.error error) t → Trusting given E Q (handler error) t) :
    Trusting given E Q (p.tryCatch handler) s :=
  fun l => wp_tryCatch _ (hBody l) (fun value t _ h => hOk value t h)
    fun error t l' h => hError error t h l'

theorem ite {Q : Except S.Err α → S.State → Prop} {c : Prop} [Decidable c] {p q : Prog S α}
    (hp : c → Trusting given E Q p s) (hq : ¬ c → Trusting given E Q q s) :
    Trusting given E Q (if c then p else q) s := by
  split
  · exact hp ‹_›
  · exact hq ‹_›

theorem ofExcept {Q : Except S.Err α → S.State → Prop} {result : Except S.Err α}
    (h : Q result s) : Trusting given E Q (Prog.ofExcept result) s := by
  cases result with
  | ok value => exact done h
  | error error => exact raise h

theorem foldlM {Q : Except S.Err β → S.State → Prop} {body : β → α → Prog S β}
    (I : List α → β → S.State → Prop)
    (hBody : ∀ item rest acc s, I (item :: rest) acc s →
      Trusting given E (fun r t => match r with
        | .ok acc' => I rest acc' t
        | .error error => Q (.error error) t) (body acc item) s)
    (hDone : ∀ acc s, I [] acc s → Q (.ok acc) s) (items : List α) {acc : β}
    (h : I items acc s) : Trusting given E Q (items.foldlM body acc) s := by
  induction items generalizing acc s with
  | nil => exact done (hDone acc s h)
  | cons item rest ih =>
      rw [List.foldlM_cons, Prog.bind_def]
      exact bind _ (hBody item rest acc s h) (fun _ t ht => ih ht) (fun _ _ ht => ht)

/-- Only the answers which are expected need be considered. -/
theorem query {question : S.Query} {Q : Except S.Err (S.Answer question) → S.State → Prop}
    (h : ∀ answer, given ⟨s, .asked question answer, s⟩ →
      E ⟨s, .asked question answer, s⟩ ∧ Q (.ok answer) s) :
    Trusting given E Q (Prog.query question) s := by
  intro l
  refine wp_query fun answer t ht => ?_
  obtain ⟨hSame, hGiven⟩ := Contract.alongside_admits.mp ht
  obtain rfl : s = t := hSame
  exact h answer hGiven

/-- What it says about executions, cut off anywhere. -/
theorem exec {Q : Except S.Err α → S.State → Prop} {p q : Prog S α} {t : S.State}
    {now : Log S} (h : Trusting given E Q p s) (hExec : Exec p s now q t)
    (hGiven : ∀ m ∈ now, given m) :
    (∀ m ∈ now, E m) ∧ (∀ value, q = .done value → Q (.ok value) t) ∧
      ∀ error, q = .raise error → Q (.error error) t := by
  have hGranted : (Contract.alongside given fun _ m => E m).Granted [] now :=
    Contract.granted_of_forall fun m hm _ => hGiven m hm
  obtain ⟨hAlong, hLeft⟩ := wp_exec (fun _ => rfl) hExec (h []) hGranted
  refine ⟨?_, ?_, ?_⟩
  · intro m hm
    obtain ⟨_, _, _, hE⟩ := hAlong.mem hm
    exact hE
  · rintro value rfl
    simpa using hLeft
  · rintro error rfl
    simpa using hLeft

end Trusting

end Durable
end Ecrke
