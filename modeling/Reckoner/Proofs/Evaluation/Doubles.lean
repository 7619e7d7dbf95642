import Mathlib
import Reckoner.Proofs.OrderedMap
import Reckoner.Proofs.Evaluation.Dependence

namespace Reckoner

/-- The finite double that a value converts to, or else zero. -/
def Value.finite (value : Value) : Float :=
  match value.toDouble with
  | .ok number => if number.isFinite then number else 0.0
  | .error _ => 0.0

def Bindings.doubles (bindings : Bindings) : Bindings :=
  ⟨bindings.entries.map fun (name, value) => (name, .real value.finite)⟩

namespace Evaluation

variable {bindings : Bindings} {functions : FunctionTable} {room : Nat}

theorem isFinite_finite (value : Value) : value.finite.isFinite = true := by
  unfold Value.finite
  split
  · split
    · assumption
    · rfl
  · rfl

theorem finite_of_bindingValue {name : String} {value : Value} {number : Float}
    (converts : bindingValue room name value = .ok number) : value.finite = number := by
  obtain ⟨isDouble, finite⟩ := bindingValue_eq_ok.1 converts
  simp only [Value.finite, isDouble, if_pos finite]

theorem get?_doubles (name : String) :
    bindings.doubles.get? name = (bindings.get? name).map fun value => .real value.finite :=
  OrderedMap.lookup_map (fun value : Value => Value.real value.finite) bindings.entries name

theorem allFinite_doubles (bindings : Bindings) : bindings.doubles.AllFinite := by
  intro name value found
  rw [get?_doubles] at found
  obtain ⟨held, _, rfl⟩ := Option.map_eq_some_iff.1 found
  exact ⟨_, rfl, isFinite_finite held⟩

/-- A list whose names have the same values among bindings and among their doubles. -/
def Usable (bindings : Bindings) (tokens : List Token) : Prop :=
  ∀ room name, .name name false ∈ tokens →
    substituteToken room bindings (.name name false) = substituteToken room bindings.doubles (.name name false)

theorem Usable.of_mem {tokens swept : List Token} (usable : Usable bindings tokens)
    (mem : ∀ token ∈ swept, token ∈ tokens ∨ ∃ value, token = Token.ofValue value) : Usable bindings swept := by
  intro room name member
  rcases mem _ member with old | ⟨value, same⟩
  · exact usable room name old
  · exact nomatch same

theorem usable_append {front back : List Token} :
    Usable bindings (front ++ back) ↔ Usable bindings front ∧ Usable bindings back where
  mp usable := ⟨fun room name member => usable room name (List.mem_append_left _ member),
    fun room name member => usable room name (List.mem_append_right _ member)⟩
  mpr both room name member := (List.mem_append.1 member).elim (both.1 room name) (both.2 room name)

theorem Usable.tail {token : Token} {rest : List Token} (usable : Usable bindings (token :: rest)) :
    Usable bindings rest :=
  fun room name member => usable room name (List.mem_cons_of_mem token member)

theorem substituteToken_doubles {name : String} {replaced : Token}
    (substituted : substituteToken room bindings (.name name false) = .ok replaced) :
    substituteToken room bindings.doubles (.name name false) = .ok replaced := by
  cases found : bindings.get? name with
  | none =>
    simp only [substituteToken, found, get?_doubles, Option.map_none] at substituted ⊢
    exact substituted
  | some value =>
    simp only [substituteToken, found, get?_doubles, Option.map_some] at substituted ⊢
    cases converts : bindingValue room name value with
    | error stop =>
      rw [converts] at substituted
      cases substituted
    | ok number =>
      have finite := isFinite_finite value
      rw [converts] at substituted
      rw [finite_of_bindingValue converts] at finite ⊢
      simp only [bindingValue, Value.toDouble, finite, if_true]
      exact substituted

/-- What is substituted can be used. -/
theorem usable_of_substitute {tokens replaced : List Token}
    (substituted : substitute room bindings tokens = .ok replaced) :
    Usable bindings tokens := by
  induction tokens generalizing replaced with
  | nil => exact fun _ _ member => absurd member List.not_mem_nil
  | cons token rest ih =>
    obtain ⟨first, isFirst, later⟩ := bind_eq_ok.1 substituted
    obtain ⟨behind, isBehind, _⟩ := bind_eq_ok.1 later
    intro other name member
    rcases List.mem_cons.1 member with rfl | inRest
    · have atRoom := substituteToken_of_ok isFirst other
      exact atRoom.trans (substituteToken_doubles atRoom).symm
    · exact ih isBehind other name inRest

theorem evaluateFlat_doubles {tokens : List Token} (usable : Usable bindings tokens) :
    evaluateFlat room bindings functions tokens = evaluateFlat room bindings.doubles functions tokens := by
  rw [evaluateFlat, evaluateFlat, substitute_congr (usable room)]

theorem usable_of_evaluateFlat {tokens : List Token} {value : Float}
    (evaluated : (evaluateFlat room bindings functions tokens).result = .ok value) : Usable bindings tokens := by
  obtain ⟨replaced, _, _, substituted, _⟩ := evaluateFlat_eq_ok.1 evaluated
  exact usable_of_substitute substituted

/-- If the groups of a list have values and what is left can be used, all of the list can. -/
theorem Usable.of_collapses {tokens swept : List Token} (usable : Usable bindings swept)
    (collapses : Collapses bindings functions tokens swept) : Usable bindings tokens := by
  induction collapses with
  | nil => exact usable
  | keep _ _ ih =>
    have later := ih usable.tail
    intro room name member
    rcases List.mem_cons.1 member with rfl | inRest
    · exact usable room name List.mem_cons_self
    · exact later room name inRest
  | close opens _ closes evaluated _ ih =>
    have later := ih (usable_append.2 ⟨usable_of_evaluateFlat evaluated, fun room name member => ?_⟩)
    · intro room name member
      rcases List.mem_cons.1 member with rfl | inRest
      · cases opens
      · exact later room name inRest
    · rcases List.mem_cons.1 member with rfl | inAfter
      · cases closes
      · exact usable.tail room name inAfter

/-- An evaluation that comes to a value can use all of its list, and is the same with doubles. -/
theorem evaluateTokens_doubles {tokens : List Token} {value : Float}
    (evaluated : (evaluateTokens bindings functions tokens).result = .ok value) :
    Usable bindings tokens ∧
      evaluateTokens bindings functions tokens = evaluateTokens bindings.doubles functions tokens := by
  obtain ⟨swept, isSwept, _, last⟩ := evaluateTokens_eq_ok.1 evaluated
  have usable := (usable_of_evaluateFlat last).of_collapses isSwept
  exact ⟨usable, evaluateTokens_congr_of_flat (fun _ _ => evaluateFlat_doubles) Usable.of_mem usable⟩

end Evaluation

end Reckoner
