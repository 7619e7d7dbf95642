import Mathlib
import Reckoner.Rounds
import Reckoner.Traced

namespace Reckoner

variable {ε α β : Type} {failing : ε → Prop} {answer : α → Prop}

/-- Every answer has one property, and every reason to stop another. -/
def Settles (failing : ε → Prop) (answer : α → Prop) : Except ε α → Prop
  | .ok a => answer a
  | .error stop => failing stop

namespace Settles

theorem mono {wider : ε → Prop} {weaker : α → Prop} {x : Except ε α} (settles : Settles failing answer x)
    (onFailing : ∀ stop, failing stop → wider stop) (onAnswer : ∀ a, answer a → weaker a) : Settles wider weaker x := by
  cases x with
  | ok a => exact onAnswer a settles
  | error stop => exact onFailing stop settles

theorem bind {after : β → Prop} {x : Except ε α} {f : α → Except ε β} (first : Settles failing answer x)
    (next : ∀ a, answer a → Settles failing after (f a)) : Settles failing after (x >>= f) := by
  cases x with
  | ok a => exact next a first
  | error stop => exact first

theorem of_ok {x : Except ε α} {a : α} (settles : Settles failing answer x) (same : x = .ok a) : answer a := by
  rw [same] at settles
  exact settles

theorem of_error {x : Except ε α} {stop : ε} (settles : Settles failing answer x) (same : x = .error stop) :
    failing stop := by
  rw [same] at settles
  exact settles

theorem mapError {γ : Type} {wider : γ → Prop} {g : ε → γ} {x : Except ε α} (settles : Settles failing answer x)
    (onFailing : ∀ stop, failing stop → wider (g stop)) : Settles wider answer (x.mapError g) := by
  cases x with
  | ok a => exact settles
  | error stop => exact onFailing stop settles

theorem foldlM {step : α → β → Except ε α} {list : List β} {a : α} (start : answer a)
    (keeps : ∀ a b, b ∈ list → answer a → Settles failing answer (step a b)) :
    Settles failing answer (list.foldlM step a) := by
  induction list generalizing a with
  | nil => exact start
  | cons b rest ih =>
    rw [List.foldlM_cons]
    exact (keeps a b List.mem_cons_self start).bind fun next holds =>
      ih holds fun a other member => keeps a other (List.mem_cons_of_mem b member)

end Settles

/-- There is no answer, and the reason to stop has some property. -/
abbrev Rejects (failing : ε → Prop) : Except ε α → Prop := Settles failing fun _ => False

namespace Rejects

theorem settles {x : Except ε α} (rejects : Rejects failing x) : Settles failing answer x :=
  rejects.mono (fun _ holds => holds) fun _ => False.elim

theorem exists_error {x : Except ε α} (rejects : Rejects failing x) : ∃ stop, x = .error stop ∧ failing stop := by
  cases x with
  | ok a => exact rejects.elim
  | error stop => exact ⟨stop, rfl, rejects⟩

theorem bind {after : β → Prop} {x : Except ε α} {f : α → Except ε β} (rejects : Rejects failing x) :
    Settles failing after (x >>= f) :=
  Settles.bind rejects fun _ impossible => impossible.elim

theorem bind_of_ok {x : Except ε α} {f : α → Except ε β} {a : α} (answer : x = .ok a) (later : Rejects failing (f a)) :
    Rejects failing (x >>= f) :=
  answer ▸ later

end Rejects

theorem mapError_eq_ok {γ : Type} {view : ε → γ} {x : Except ε α} {a : α} : x.mapError view = .ok a ↔ x = .ok a := by
  cases x <;> simp [Except.mapError]

theorem mapError_eq_error {γ : Type} {view : ε → γ} {x : Except ε α} {stop : γ} :
    x.mapError view = .error stop ↔ ∃ cause, x = .error cause ∧ view cause = stop := by
  cases x <;> simp [Except.mapError]

theorem bind_eq_error {x : Except ε α} {f : α → Except ε β} {stop : ε} :
    (x >>= f) = .error stop ↔ x = .error stop ∨ ∃ a, x = .ok a ∧ f a = .error stop := by
  cases x <;> simp [bind, Except.bind]

/-- Two checks in turn pass exactly if both do. -/
theorem check_bind_eq_ok {x : Except ε Unit} {y : Except ε β} {b : β} :
    (x >>= fun _ => y) = .ok b ↔ x = .ok () ∧ y = .ok b := by
  rw [bind_eq_ok]
  exact ⟨fun ⟨_, first, later⟩ => ⟨first, later⟩, fun ⟨first, later⟩ => ⟨_, first, later⟩⟩

/-- Chains that agree step by step up to a view of their failures agree up to it. -/
theorem mapError_bind_congr {γ : Type} {view : ε → γ} {x y : Except ε α} {f g : α → Except ε β}
    (first : x.mapError view = y.mapError view)
    (next : ∀ a, y = .ok a → (f a).mapError view = (g a).mapError view) :
    (x >>= f).mapError view = (y >>= g).mapError view := by
  cases y with
  | ok b =>
    rw [mapError_eq_ok.1 first]
    exact next b rfl
  | error other =>
    cases x with
    | ok a => exact nomatch first
    | error stop => exact congrArg Except.error (Except.error.inj first)

theorem mapError_bind_congr_left {γ : Type} {view : ε → γ} {x y : Except ε α}
    (first : x.mapError view = y.mapError view) (f : α → Except ε β) :
    (x >>= f).mapError view = (y >>= f).mapError view :=
  mapError_bind_congr first fun _ _ => rfl

namespace Traced

variable {failing : Stop → Prop}

theorem settles_bind {after : β → Prop} {x : Traced α} {f : α → Traced β} (first : Settles failing answer x.result)
    (next : ∀ a, answer a → Settles failing after (f a).result) : Settles failing after (x >>= f).result := by
  rw [result_bind]
  exact first.bind next

theorem settles_foldlM {step : α → β → Traced α} {list : List β} {a : α} (start : answer a)
    (keeps : ∀ a b, answer a → Settles failing answer (step a b).result) :
    Settles failing answer (list.foldlM step a).result := by
  induction list generalizing a with
  | nil => exact start
  | cons b rest ih =>
    rw [List.foldlM_cons]
    exact settles_bind (keeps a b start) fun next holds => ih holds

theorem result_bind_eq_error {x : Traced α} {f : α → Traced β} {stop : Stop} :
    (x >>= f).result = .error stop ↔ x.result = .error stop ∨ ∃ a, x.result = .ok a ∧ (f a).result = .error stop := by
  rw [result_bind, bind_eq_error]

/-- A run over a list stops where one of its steps does, behind steps that all gave an answer. -/
theorem foldlM_eq_error {step : α → β → Traced α} {list : List β} {a : α} {stop : Stop} :
    (list.foldlM step a).result = .error stop ↔ ∃ done b rest state, list = done ++ b :: rest ∧
      (done.foldlM step a).result = .ok state ∧ (step state b).result = .error stop := by
  constructor
  · intro stops
    induction list generalizing a with
    | nil => cases stops
    | cons b rest ih =>
      rw [List.foldlM_cons] at stops
      rcases result_bind_eq_error.1 stops with first | ⟨next, isNext, later⟩
      · exact ⟨[], b, rest, a, rfl, rfl, first⟩
      · obtain ⟨done, other, behind, state, rfl, run, stopped⟩ := ih later
        exact ⟨b :: done, other, behind, state, rfl, result_bind_eq_ok.2 ⟨next, isNext, run⟩, stopped⟩
  · rintro ⟨done, b, rest, state, rfl, run, stopped⟩
    rw [List.foldlM_append, result_bind_of_ok run, List.foldlM_cons]
    exact result_bind_eq_error.2 (Or.inl stopped)

theorem settles_rounds {round : α → Option (Traced α)} {state : α} (start : answer state)
    (keeps : ∀ state next, answer state → round state = some next → Settles failing answer next.result) (count : Nat) :
    Settles failing answer (rounds round count state).result := by
  induction count generalizing state with
  | zero => exact start
  | succ count ih =>
    rcases taken : round state with _ | next
    · rw [rounds_of_none taken]
      exact start
    · rw [rounds_succ_of_some taken]
      exact settles_bind (keeps state next start taken) fun a holds => ih holds

end Traced

end Reckoner
