import Mathlib
import Reckoner.Proofs.Evaluation.Doubles
import Reckoner.Proofs.Evaluation.Meaning

namespace Reckoner

open Evaluation

/-- The parts that an expression is made up of, each with what it comes to. Groups, sums and their terms come to what
their parts do. -/
inductive Derivation where
  | number (text : String) (value : Float)
  | bound (name : String) (value : Float)
  | group (opening closing : String) (inner : Derivation)
  | call (name : String) (negated : Bool) (operand : Derivation) (value : Float)
  | power (base : Derivation) (run : List Bool) (exponent : Derivation) (value : Float)
  | product (left : Derivation) (op : Operator) (run : List Bool) (right : Derivation) (value : Float)
  | firstTerm (run : List Bool) (term : Derivation)
  | nextTerm (sum : Derivation) (run : List Bool) (term : Derivation)

/-- The stages of the evaluation of a list, in their order: what is replaced by values after each. -/
inductive Stage where
  | scanned
  | resolved
  | substituted
  | called
  | powered
  | multiplied

def Stage.level : Stage → Nat
  | scanned => 0
  | resolved => 1
  | substituted => 2
  | called => 3
  | powered => 4
  | multiplied => 5

/-- What the tokens of a list can be after a stage. -/
def Stage.Leaves : Stage → Token → Prop
  | scanned, _ => True
  | resolved, token => NoGroup token
  | substituted, token => token.IsFlat
  | called, token => Phrase.primary.Leaves token
  | powered, token => Phrase.power.Leaves token
  | multiplied, token => Phrase.term.Leaves token

namespace Derivation

def value : Derivation → Float
  | .number _ value => value
  | .bound _ value => value
  | .group _ _ inner => inner.value
  | .call _ _ _ value => value
  | .power _ _ _ value => value
  | .product _ _ _ _ value => value
  | .firstTerm run term => addSigned 0.0 run term.value
  | .nextTerm sum run term => addSigned sum.value run term.value

/-- The argument of a function, from the value of its operand. -/
def argument (negated : Bool) (operand : Derivation) : Float :=
  if negated then -operand.value else operand.value

/-- The tokens after a stage. What is replaced by then is the number token of its value. -/
def spelled (stage : Stage) : Derivation → List Token
  | .number text value => [.number text value]
  | .bound name value => if Stage.substituted.level ≤ stage.level then [.ofValue value] else [.name name false]
  | .group opening closing inner =>
    if Stage.resolved.level ≤ stage.level then [.ofValue inner.value]
    else .lparen opening :: (inner.spelled stage ++ [.rparen closing])
  | .call name negated operand value =>
    if Stage.called.level ≤ stage.level then [.ofValue value]
    else .function name :: (operandSign negated ++ operand.spelled stage)
  | .power base run exponent value =>
    if Stage.powered.level ≤ stage.level then [.ofValue value]
    else base.spelled stage ++ .operator .power :: (run.map signToken ++ exponent.spelled stage)
  | .product left op run right value =>
    if Stage.multiplied.level ≤ stage.level then [.ofValue value]
    else left.spelled stage ++ .operator op :: (run.map signToken ++ right.spelled stage)
  | .firstTerm run term => run.map signToken ++ term.spelled stage
  | .nextTerm sum run term => sum.spelled stage ++ (run.map signToken ++ term.spelled stage)

/-- The tokens that are derived from. -/
def tokens (derivation : Derivation) : List Token := derivation.spelled .scanned

/-- Whether a derivation is one of a phrase of some kind: its parts are put together as the grammar has it, and every
operation comes to its value. -/
inductive Sound (bindings : Bindings) (functions : FunctionTable) : Phrase → Derivation → Prop where
  | number (text : String) (value : Float) : Sound bindings functions .primary (.number text value)
  | bound {name : String} {value : Float}
      (substituted : ∀ room, substituteToken room bindings (.name name false) = .ok (.ofValue value)) :
      Sound bindings functions .primary (.bound name value)
  | group (opening closing : String) {inner : Derivation} (sound : Sound bindings functions .expression inner) :
      Sound bindings functions .primary (.group opening closing inner)
  | call {name : String} {negated : Bool} {operand : Derivation} {value : Float}
      (sound : Sound bindings functions .primary operand)
      (applied : functions.apply name (operand.argument negated) = .ok value) :
      Sound bindings functions .primary (.call name negated operand value)
  | ofPrimary {derivation : Derivation} (sound : Sound bindings functions .primary derivation) :
      Sound bindings functions .power derivation
  | power {base exponent : Derivation} {value : Float} (run : List Bool)
      (atLeft : Sound bindings functions .primary base) (atRight : Sound bindings functions .power exponent)
      (computed : compute base.value .power (runFactor run * exponent.value) = .ok value) :
      Sound bindings functions .power (.power base run exponent value)
  | ofPower {derivation : Derivation} (sound : Sound bindings functions .power derivation) :
      Sound bindings functions .term derivation
  | product {left right : Derivation} {value : Float} {op : Operator} (run : List Bool)
      (atLeft : Sound bindings functions .term left) (isProduct : op ∈ Operator.products)
      (minusFirst : run.head? ≠ some false) (atRight : Sound bindings functions .power right)
      (computed : compute left.value op (runFactor run * right.value) = .ok value) :
      Sound bindings functions .term (.product left op run right value)
  | firstTerm {term : Derivation} (run : List Bool) (sound : Sound bindings functions .term term) :
      Sound bindings functions .sum (.firstTerm run term)
  | nextTerm {sum term : Derivation} {run : List Bool} (before : Sound bindings functions .sum sum) (signed : run ≠ [])
      (sound : Sound bindings functions .term term) : Sound bindings functions .sum (.nextTerm sum run term)
  | ofSum {derivation : Derivation} (sound : Sound bindings functions .sum derivation)
      (finite : derivation.value.isFinite = true) : Sound bindings functions .expression derivation

variable {bindings : Bindings} {functions : FunctionTable} {phrase : Phrase} {derivation : Derivation} {stage : Stage}

/-- What a list means is derived from it. -/
theorem exists_of_means {tokens : List Token} {value : Float}
    (means : Means bindings.doubles functions phrase tokens value) (usable : Usable bindings tokens) :
    ∃ derivation, Sound bindings functions phrase derivation ∧ derivation.tokens = tokens ∧
      derivation.value = value := by
  induction means with
  | number text value => exact ⟨.number text value, .number text value, rfl, rfl⟩
  | @bound name value binding =>
    have replaced (room : Nat) : substituteToken room bindings (.name name false) = .ok (.ofValue value) := by
      rw [usable room name List.mem_cons_self, substituteToken_eq (allFinite_doubles bindings), replaceName, binding]
    exact ⟨.bound name value, .bound replaced, rfl, rfl⟩
  | group opening closing _ ih =>
    obtain ⟨inner, sound, rfl, rfl⟩ := ih (usable_append.1 usable.tail).1
    exact ⟨.group opening closing inner, .group opening closing sound, rfl, rfl⟩
  | @call name _ _ value _ applied ih =>
    obtain ⟨operand, sound, rfl, rfl⟩ := ih usable.tail
    exact ⟨.call name false operand value, .call sound applied, rfl, rfl⟩
  | @negatedCall name _ _ value _ applied ih =>
    obtain ⟨operand, sound, rfl, rfl⟩ := ih usable.tail.tail
    exact ⟨.call name true operand value, .call sound applied, rfl, rfl⟩
  | ofPrimary _ ih =>
    obtain ⟨derivation, sound, same⟩ := ih usable
    exact ⟨derivation, .ofPrimary sound, same⟩
  | @power _ _ _ _ value run _ _ computed ihLeft ihRight =>
    obtain ⟨usableLeft, usableRest⟩ := usable_append.1 usable
    obtain ⟨base, soundLeft, rfl, rfl⟩ := ihLeft usableLeft
    obtain ⟨exponent, soundRight, rfl, rfl⟩ := ihRight (usable_append.1 usableRest.tail).2
    exact ⟨.power base run exponent value, .power run soundLeft soundRight computed, rfl, rfl⟩
  | ofPower _ ih =>
    obtain ⟨derivation, sound, same⟩ := ih usable
    exact ⟨derivation, .ofPower sound, same⟩
  | @product _ _ _ _ value op run _ isProduct minusFirst _ computed ihLeft ihRight =>
    obtain ⟨usableLeft, usableRest⟩ := usable_append.1 usable
    obtain ⟨left, soundLeft, rfl, rfl⟩ := ihLeft usableLeft
    obtain ⟨right, soundRight, rfl, rfl⟩ := ihRight (usable_append.1 usableRest.tail).2
    exact ⟨.product left op run right value, .product run soundLeft isProduct minusFirst soundRight computed, rfl, rfl⟩
  | firstTerm run _ ih =>
    obtain ⟨term, sound, rfl, rfl⟩ := ih (usable_append.1 usable).2
    exact ⟨.firstTerm run term, .firstTerm run sound, rfl, rfl⟩
  | @nextTerm _ _ _ _ run _ signed _ ihSum ihTerm =>
    obtain ⟨usableSum, usableRest⟩ := usable_append.1 usable
    obtain ⟨sum, before, rfl, rfl⟩ := ihSum usableSum
    obtain ⟨term, sound, rfl, rfl⟩ := ihTerm (usable_append.1 usableRest).2
    exact ⟨.nextTerm sum run term, .nextTerm before signed sound, rfl, rfl⟩
  | ofSum _ finite ih =>
    obtain ⟨derivation, sound, same, rfl⟩ := ih usable
    exact ⟨derivation, .ofSum sound finite, same, rfl⟩

theorem leaves_number (stage : Stage) (text : String) (value : Float) :
    (Token.number text value).IsKnown ∧ stage.Leaves (.number text value) := by
  cases stage <;> first | exact ⟨trivial, trivial⟩ | exact ⟨trivial, rfl, rfl⟩

theorem leaves_sign (stage : Stage) (sign : Bool) : (signToken sign).IsKnown ∧ stage.Leaves (signToken sign) := by
  have known : (signToken sign).IsKnown := by cases sign <;> decide
  refine ⟨known, ?_⟩
  cases stage with
  | called => exact @Phrase.leaves_sign .primary (by decide) sign
  | powered => exact @Phrase.leaves_sign .power (by decide) sign
  | multiplied => exact @Phrase.leaves_sign .term (by decide) sign
  | resolved => exact ⟨rfl, rfl⟩
  | _ => trivial

theorem leaves_signs (stage : Stage) (run : List Bool) :
    ∀ token ∈ run.map signToken, token.IsKnown ∧ stage.Leaves token :=
  List.forall_mem_map.2 fun sign _ => leaves_sign stage sign

theorem leaves_operandSign (stage : Stage) (negated : Bool) :
    ∀ token ∈ operandSign negated, token.IsKnown ∧ stage.Leaves token := by
  cases negated with
  | false => exact List.forall_mem_nil _
  | true => exact List.forall_mem_singleton.2 (leaves_sign stage true)

namespace Sound

/-- After a stage a list has none of the tokens left that the stage replaces. -/
theorem leaves (sound : Sound bindings functions phrase derivation) (stage : Stage) :
    ∀ token ∈ derivation.spelled stage, token.IsKnown ∧ stage.Leaves token := by
  induction sound with
  | number text value => exact List.forall_mem_singleton.2 (leaves_number stage text value)
  | @bound name value _ =>
    unfold spelled
    split
    · exact List.forall_mem_singleton.2 (leaves_number stage _ value)
    · refine List.forall_mem_singleton.2 ⟨trivial, ?_⟩
      cases stage <;> trivial
  | @group opening closing inner _ ih =>
    unfold spelled
    split
    · exact List.forall_mem_singleton.2 (leaves_number stage _ inner.value)
    · rename_i unreached
      obtain rfl : stage = .scanned := by cases stage <;> first | rfl | exact absurd (by decide) unreached
      exact List.forall_mem_cons.2 ⟨⟨trivial, trivial⟩,
        List.forall_mem_append.2 ⟨ih, List.forall_mem_singleton.2 ⟨trivial, trivial⟩⟩⟩
  | @call name negated operand value _ _ ih =>
    unfold spelled
    split
    · exact List.forall_mem_singleton.2 (leaves_number stage _ value)
    · refine List.forall_mem_cons.2 ⟨⟨trivial, ?_⟩, List.forall_mem_append.2 ⟨leaves_operandSign stage negated, ih⟩⟩
      cases stage <;> trivial
  | ofPrimary _ ih | ofPower _ ih | ofSum _ _ ih => exact ih
  | @power base exponent value run _ _ _ ihLeft ihRight =>
    unfold spelled
    split
    · exact List.forall_mem_singleton.2 (leaves_number stage _ value)
    · refine forall_mem_operation.2 ⟨ihLeft, ⟨by decide, ?_⟩, leaves_signs stage run, ihRight⟩
      cases stage <;> trivial
  | @product left right value op run _ isProduct _ _ _ ihLeft ihRight =>
    have known : (Token.operator op).IsKnown := (by decide : Operator.products ⊆ Operator.all) isProduct
    unfold spelled
    split
    · exact List.forall_mem_singleton.2 (leaves_number stage _ value)
    · refine forall_mem_operation.2 ⟨ihLeft, ⟨known, ?_⟩, leaves_signs stage run, ihRight⟩
      have noPower : op ≠ .power := by
        rintro rfl
        exact absurd isProduct (by decide)
      cases stage <;> trivial
  | @firstTerm term run _ ih => exact List.forall_mem_append.2 ⟨leaves_signs stage run, ih⟩
  | @nextTerm sum term run _ _ _ ihSum ihTerm =>
    exact List.forall_mem_append.2 ⟨ihSum, List.forall_mem_append.2 ⟨leaves_signs stage run, ihTerm⟩⟩

/-- Once groups and variables are replaced, a list means what its derivation comes to. -/
theorem means (sound : Sound bindings functions phrase derivation) (reached : Stage.substituted.level ≤ stage.level) :
    Means .empty functions phrase (derivation.spelled stage) derivation.value := by
  induction sound with
  | number text value => exact .number text value
  | @bound name value _ =>
    rw [spelled, if_pos reached]
    exact .number _ value
  | @group opening closing inner _ _ =>
    rw [spelled, if_pos ((by decide : Stage.resolved.level ≤ Stage.substituted.level).trans reached)]
    exact .number _ inner.value
  | @call name negated operand value _ applied ih =>
    unfold spelled
    split
    · exact .number _ value
    · cases negated with
      | false => exact .call ih applied
      | true => exact .negatedCall ih applied
  | ofPrimary _ ih => exact .ofPrimary ih
  | @power base exponent value run _ _ computed ihLeft ihRight =>
    unfold spelled
    split
    · exact .ofPrimary (.number _ value)
    · exact .power run ihLeft ihRight computed
  | ofPower _ ih => exact .ofPower ih
  | @product left right value op run _ isProduct minusFirst _ computed ihLeft ihRight =>
    unfold spelled
    split
    · exact .ofPower (.ofPrimary (.number _ value))
    · exact .product run ihLeft isProduct minusFirst ihRight computed
  | firstTerm run _ ih => exact .firstTerm run ih
  | nextTerm _ signed _ ihSum ihTerm => exact .nextTerm ihSum signed ihTerm
  | ofSum _ finite ih => exact .ofSum ih finite

/-- After the calls a primary is a number. -/
theorem single_called (sound : Sound bindings functions .primary derivation) :
    ∃ text, derivation.spelled .called = [.number text derivation.value] :=
  (sound.means (by decide)).eq_number (le_refl Phrase.primary.level) (by decide) fun token member =>
    (sound.leaves .called token member).2

theorem single_powered (sound : Sound bindings functions .power derivation) :
    ∃ text, derivation.spelled .powered = [.number text derivation.value] :=
  (sound.means (by decide)).eq_number (le_refl Phrase.power.level) (by decide) fun token member =>
    (sound.leaves .powered token member).2

theorem single_multiplied (sound : Sound bindings functions .term derivation) :
    ∃ text, derivation.spelled .multiplied = [.number text derivation.value] :=
  (sound.means (by decide)).eq_number (le_refl Phrase.term.level) (by decide) fun token member =>
    (sound.leaves .multiplied token member).2

end Sound

end Derivation

end Reckoner
