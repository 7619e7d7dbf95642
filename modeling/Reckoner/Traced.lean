import Reckoner.Token.Basic

namespace Reckoner

/-- A chain of two computations answers exactly if both do. -/
theorem bind_eq_ok {ε α β : Type} {x : Except ε α} {f : α → Except ε β} {b : β} :
    x >>= f = .ok b ↔ ∃ a, x = .ok a ∧ f a = .ok b := by
  cases x <;> simp [bind, Except.bind]

/-- One step of an evaluation. -/
inductive Step where
  | scanned (tokens : List Token)
  /-- A parenthesised group, its parentheses included, and its value. -/
  | group (tokens : List Token) (value : Float)
  | call (name : String) (argument value : Float)
  | operation (left : Float) (operator : Operator) (right value : Float)
  /-- The signed numbers that are left to add up. -/
  | reduced (tokens : List Token)

namespace Step

def display : Step → String
  | scanned tokens => "Tokens: " ++ Token.displayAll tokens
  | group tokens value => "Group " ++ Token.displayAll tokens ++ " -> " ++ Double.text value
  | call name argument value => Failure.callText name argument ++ " = " ++ Double.text value
  | operation left op right value =>
    Double.text left ++ " " ++ op.text ++ " " ++ Double.text right ++ " = " ++ Double.text value
  | reduced tokens => "Reduced: " ++ Token.displayAll tokens

end Step

/-- An answer, or the reason why there is none, with the steps taken. -/
structure Traced (α : Type) where
  steps : List Step
  result : Except Stop α

namespace Traced

variable {α β : Type}

protected def pure (a : α) : Traced α := ⟨[], .ok a⟩

/-- One computation after another. When the first stops, the second is not reached. -/
protected def bind (x : Traced α) (f : α → Traced β) : Traced β :=
  match x.result with
  | .ok a => ⟨x.steps ++ (f a).steps, (f a).result⟩
  | .error stop => ⟨x.steps, .error stop⟩

instance : Monad Traced where
  pure := Traced.pure
  bind := Traced.bind

def note (step : Step) : Traced Unit := ⟨[step], .ok ()⟩

def ofExcept (result : Except Stop α) : Traced α := ⟨[], result⟩

def fail (cause : Failure) : Traced α := ⟨[], .error (.of cause)⟩

def ofFailing : Except Failure α → Traced α
  | .ok a => pure a
  | .error cause => fail cause

/-- The same steps, with another account of why there is no answer. -/
def mapStop (f : Stop → Stop) (x : Traced α) : Traced α := ⟨x.steps, x.result.mapError f⟩

@[simp] theorem result_pure (a : α) : (pure a : Traced α).result = .ok a := rfl

@[simp] theorem steps_pure (a : α) : (pure a : Traced α).steps = [] := rfl

@[simp] theorem result_bind (x : Traced α) (f : α → Traced β) :
    (x >>= f).result = x.result >>= fun a => (f a).result := by
  change (Traced.bind x f).result = _
  unfold Traced.bind
  cases x.result <;> rfl

@[simp] theorem result_note (step : Step) : (note step).result = .ok () := rfl

@[simp] theorem steps_note (step : Step) : (note step).steps = [step] := rfl

@[simp] theorem result_ofExcept (result : Except Stop α) : (ofExcept result).result = result := rfl

@[simp] theorem steps_ofExcept (result : Except Stop α) : (ofExcept result).steps = [] := rfl

@[simp] theorem result_fail (cause : Failure) : (fail cause : Traced α).result = .error (.of cause) := rfl

@[simp] theorem result_ofFailing (result : Except Failure α) :
    (ofFailing result).result = result.mapError Stop.of := by
  cases result <;> rfl

/-- A computation that may fail answers exactly with its answer. -/
theorem result_ofFailing_eq_ok {result : Except Failure α} {a : α} :
    (ofFailing result).result = .ok a ↔ result = .ok a := by
  cases result with
  | ok b => exact ⟨fun same => congrArg _ (Except.ok.inj same), fun same => congrArg _ (Except.ok.inj same)⟩
  | error cause => exact ⟨nofun, nofun⟩

@[simp] theorem steps_ofFailing (result : Except Failure α) : (ofFailing result).steps = [] := by
  cases result <;> rfl

@[simp] theorem result_mapStop (f : Stop → Stop) (x : Traced α) :
    (mapStop f x).result = x.result.mapError f := rfl

@[simp] theorem steps_mapStop (f : Stop → Stop) (x : Traced α) : (mapStop f x).steps = x.steps := rfl

/-- A chain of computations answers exactly if each of them does. -/
theorem result_bind_eq_ok {x : Traced α} {f : α → Traced β} {b : β} :
    (x >>= f).result = .ok b ↔ ∃ a, x.result = .ok a ∧ (f a).result = .ok b := by
  rw [result_bind, bind_eq_ok]

/-- A computation whose answer is noted answers exactly if it does. -/
theorem result_bind_note_eq_ok {x : Traced α} {step : α → Step} {f : α → β} {b : β} :
    (x >>= fun a => note (step a) >>= fun _ => pure (f a)).result = .ok b ↔ ∃ a, x.result = .ok a ∧ b = f a := by
  rw [result_bind_eq_ok]
  exact exists_congr fun a => and_congr_right fun _ =>
    ⟨fun same => (Except.ok.inj same).symm, congrArg Except.ok ∘ Eq.symm⟩

theorem result_bind_of_ok {x : Traced α} {f : α → Traced β} {a : α} (answer : x.result = .ok a) :
    (x >>= f).result = (f a).result := by
  rw [result_bind, answer]
  rfl

/-- What follows a computation matters only for the answer that it gives. -/
theorem bind_congr_of_ok {x : Traced α} {f g : α → Traced β} (same : ∀ a, x.result = .ok a → f a = g a) :
    x >>= f = x >>= g := by
  change Traced.bind x f = Traced.bind x g
  unfold Traced.bind
  cases answer : x.result with
  | ok a => simp only [same a answer]
  | error stop => rfl

/-- A computation that stops leaves out what would follow it. -/
@[simp] theorem fail_bind (cause : Failure) (f : α → Traced β) : (fail cause : Traced α) >>= f = fail cause := rfl

private theorem map_id_traced (x : Traced α) : id <$> x = x := by
  obtain ⟨steps, result⟩ := x
  cases result <;> simp [Functor.map, Traced.bind, Traced.pure]

private theorem pure_bind_traced (a : α) (f : α → Traced β) : pure a >>= f = f a := by
  simp [bind, Traced.bind, pure, Traced.pure]

private theorem bind_assoc_traced {γ : Type} (x : Traced α) (f : α → Traced β) (g : β → Traced γ) :
    x >>= f >>= g = x >>= fun a => f a >>= g := by
  obtain ⟨steps, result⟩ := x
  cases result with
  | error stop => rfl
  | ok a =>
    simp only [bind, Traced.bind]
    cases (f a).result <;> simp

instance : LawfulMonad Traced :=
  LawfulMonad.mk' Traced map_id_traced pure_bind_traced bind_assoc_traced

end Traced

end Reckoner
