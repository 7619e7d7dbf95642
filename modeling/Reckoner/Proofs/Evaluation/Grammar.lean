import Mathlib
import Reckoner.Evaluation.Groups

namespace Reckoner

open Evaluation

/-- The kinds of phrases, from the tightest to the loosest. -/
inductive Phrase where
  | primary
  | power
  | term
  | sum
  | expression

def Phrase.level : Phrase → Nat
  | primary => 0
  | power => 1
  | term => 2
  | sum => 3
  | expression => 4

/-- Whether a run of signs stands for a minus. Each sign is given by whether it is one. -/
def runNegative (run : List Bool) : Bool :=
  run.foldl (· ^^ ·) false

def runFactor (run : List Bool) : Float :=
  if runNegative run then -1.0 else 1.0

/-- A number added to a total with the sign of a run. -/
def addSigned (total : Float) (run : List Bool) (value : Float) : Float :=
  if runNegative run then total - value else total + value

/-- The tokens that make up a phrase of some kind, and the value of the phrase. Powers group from the right and take
their exponent with any signs. Products and quotients group from the left; the signs of a right operand begin with a
minus. Terms are added up from zero, each but the first behind at least one sign. The value of an expression is
finite. -/
inductive Means (bindings : Bindings) (functions : FunctionTable) : Phrase → List Token → Float → Prop where
  | number (text : String) (value : Float) : Means bindings functions .primary [.number text value] value
  | bound {name : String} {value : Float} (binding : bindings.get? name = some (.real value)) :
      Means bindings functions .primary [.name name false] value
  | group (opening closing : String) {tokens : List Token} {value : Float}
      (inner : Means bindings functions .expression tokens value) :
      Means bindings functions .primary (.lparen opening :: (tokens ++ [.rparen closing])) value
  | call {name : String} {tokens : List Token} {argument value : Float}
      (operand : Means bindings functions .primary tokens argument)
      (applied : functions.apply name argument = .ok value) :
      Means bindings functions .primary (.function name :: tokens) value
  | negatedCall {name : String} {tokens : List Token} {argument value : Float}
      (operand : Means bindings functions .primary tokens argument)
      (applied : functions.apply name (-argument) = .ok value) :
      Means bindings functions .primary (.function name :: .operator .minus :: tokens) value
  | ofPrimary {tokens : List Token} {value : Float} (primary : Means bindings functions .primary tokens value) :
      Means bindings functions .power tokens value
  | power {left right : List Token} {base exponent value : Float} (run : List Bool)
      (atLeft : Means bindings functions .primary left base)
      (atRight : Means bindings functions .power right exponent)
      (computed : compute base .power (runFactor run * exponent) = .ok value) :
      Means bindings functions .power (left ++ .operator .power :: (run.map signToken ++ right)) value
  | ofPower {tokens : List Token} {value : Float} (power : Means bindings functions .power tokens value) :
      Means bindings functions .term tokens value
  | product {left right : List Token} {first second value : Float} {op : Operator} (run : List Bool)
      (atLeft : Means bindings functions .term left first) (isProduct : op ∈ Operator.products)
      (minusFirst : run.head? ≠ some false) (atRight : Means bindings functions .power right second)
      (computed : compute first op (runFactor run * second) = .ok value) :
      Means bindings functions .term (left ++ .operator op :: (run.map signToken ++ right)) value
  | firstTerm {tokens : List Token} {value : Float} (run : List Bool)
      (term : Means bindings functions .term tokens value) :
      Means bindings functions .sum (run.map signToken ++ tokens) (addSigned 0.0 run value)
  | nextTerm {before tokens : List Token} {total value : Float} {run : List Bool}
      (sum : Means bindings functions .sum before total) (signed : run ≠ [])
      (term : Means bindings functions .term tokens value) :
      Means bindings functions .sum (before ++ (run.map signToken ++ tokens)) (addSigned total run value)
  | ofSum {tokens : List Token} {value : Float} (sum : Means bindings functions .sum tokens value)
      (finite : value.isFinite = true) :
      Means bindings functions .expression tokens value

variable {bindings : Bindings} {functions : FunctionTable} {phrase : Phrase} {tokens : List Token} {value : Float}

/-- All tokens of an operation have a property if those of its operands, its operator and the signs behind it have. -/
theorem forall_mem_operation {holds : Token → Prop} {left right : List Token} {op : Operator} {run : List Bool} :
    (∀ token ∈ left ++ .operator op :: (run.map signToken ++ right), holds token) ↔
      (∀ token ∈ left, holds token) ∧ holds (.operator op) ∧ (∀ token ∈ run.map signToken, holds token) ∧
        ∀ token ∈ right, holds token := by
  simp only [List.forall_mem_append, List.forall_mem_cons]

namespace Means

theorem ne_nil (means : Means bindings functions phrase tokens value) : tokens ≠ [] := by
  induction means with
  | ofPrimary _ ih | ofPower _ ih | ofSum _ _ ih => exact ih
  | firstTerm run _ ih => simp [ih]
  | nextTerm _ _ _ ih _ => simp [ih]
  | _ => simp

/-- A phrase is one of every looser kind too, up to terms. -/
theorem raise {looser : Phrase} (means : Means bindings functions phrase tokens value)
    (below : phrase.level ≤ looser.level) (operand : looser.level ≤ Phrase.term.level) :
    Means bindings functions looser tokens value := by
  cases phrase <;> cases looser <;> simp only [Phrase.level] at below operand <;>
    first | exact means | omega | exact .ofPrimary means | exact .ofPower means | exact .ofPower (.ofPrimary means)

end Means

/-- A list and what becomes of it when some of its parts are replaced by their values. -/
inductive Respelled (part : List Token → Float → Prop) : List Token → List Token → Prop where
  | nil : Respelled part [] []
  | keep (token : Token) {tokens swept : List Token} (rest : Respelled part tokens swept) :
      Respelled part (token :: tokens) (token :: swept)
  | replace {block tokens swept : List Token} {value : Float} (first : part block value)
      (rest : Respelled part tokens swept) : Respelled part (block ++ tokens) (Token.ofValue value :: swept)

namespace Respelled

variable {part : List Token → Float → Prop} {swept before after : List Token}

theorem refl (tokens : List Token) : Respelled part tokens tokens := by
  induction tokens with
  | nil => exact .nil
  | cons token rest ih => exact .keep token ih

theorem single {block : List Token} (means : part block value) : Respelled part block [Token.ofValue value] := by
  have whole := replace means .nil
  rwa [List.append_nil] at whole

theorem append {tokens' swept' : List Token} (first : Respelled part tokens swept)
    (second : Respelled part tokens' swept') : Respelled part (tokens ++ tokens') (swept ++ swept') := by
  induction first with
  | nil => exact second
  | keep token _ ih => exact .keep token ih
  | replace means _ ih =>
    rw [List.append_assoc, List.cons_append]
    exact .replace means ih

theorem split (respelled : Respelled part tokens (before ++ after)) :
    ∃ first second, tokens = first ++ second ∧ Respelled part first before ∧ Respelled part second after := by
  induction before generalizing tokens with
  | nil => exact ⟨[], tokens, rfl, .nil, respelled⟩
  | cons token before ih =>
    cases respelled with
    | keep _ rest =>
      obtain ⟨first, second, rfl, respelledFirst, respelledSecond⟩ := ih rest
      exact ⟨token :: first, second, rfl, .keep token respelledFirst, respelledSecond⟩
    | replace means rest =>
      obtain ⟨first, second, rfl, respelledFirst, respelledSecond⟩ := ih rest
      exact ⟨_ ++ first, second, (List.append_assoc ..).symm, .replace means respelledFirst, respelledSecond⟩

theorem of_nil (respelled : Respelled part tokens []) : tokens = [] := by
  cases respelled
  rfl

/-- A token other than a number stands for itself. -/
theorem of_cons {token : Token} (respelled : Respelled part tokens (token :: swept))
    (noNumber : ∀ text value, token ≠ .number text value) :
    ∃ rest, tokens = token :: rest ∧ Respelled part rest swept := by
  cases respelled with
  | keep _ rest => exact ⟨_, rfl, rest⟩
  | replace means rest => exact (noNumber _ _ rfl).elim

theorem of_signs {run : List Bool} (respelled : Respelled part tokens (run.map signToken ++ swept)) :
    ∃ rest, tokens = run.map signToken ++ rest ∧ Respelled part rest swept := by
  induction run generalizing tokens with
  | nil => exact ⟨tokens, rfl, respelled⟩
  | cons sign run ih =>
    have noNumber : ∀ text value, signToken sign ≠ .number text value := nofun
    obtain ⟨signed, rfl, respelledSigned⟩ := respelled.of_cons noNumber
    obtain ⟨rest, rfl, respelledRest⟩ := ih respelledSigned
    exact ⟨rest, rfl, respelledRest⟩

/-- The operator of an operation stands for itself, and so do the signs behind it. -/
theorem of_operation {left right : List Token} {op : Operator} {run : List Bool}
    (respelled : Respelled part tokens (left ++ .operator op :: (run.map signToken ++ right))) :
    ∃ first second, tokens = first ++ .operator op :: (run.map signToken ++ second) ∧ Respelled part first left ∧
      Respelled part second right := by
  obtain ⟨first, rest, rfl, respelledLeft, respelledRest⟩ := respelled.split
  obtain ⟨signed, rfl, respelledSigned⟩ := respelledRest.of_cons nofun
  obtain ⟨second, rfl, respelledRight⟩ := respelledSigned.of_signs
  exact ⟨first, second, rfl, respelledLeft, respelledRight⟩

theorem operation {left right left' right' : List Token} (op : Operator) (run : List Bool)
    (atLeft : Respelled part left left') (atRight : Respelled part right right') :
    Respelled part (left ++ .operator op :: (run.map signToken ++ right))
      (left' ++ .operator op :: (run.map signToken ++ right')) :=
  atLeft.append (.keep _ ((refl _).append atRight))

theorem mem {token : Token} (respelled : Respelled part tokens swept) (member : token ∈ swept) :
    token ∈ tokens ∨ ∃ value, token = Token.ofValue value := by
  induction respelled with
  | nil => exact nomatch member
  | keep first _ ih =>
    rcases List.mem_cons.1 member with rfl | later
    · exact Or.inl List.mem_cons_self
    · exact (ih later).imp_left (List.mem_cons_of_mem first)
  | replace means _ ih =>
    rcases List.mem_cons.1 member with rfl | later
    · exact Or.inr ⟨_, rfl⟩
    · exact (ih later).imp_left (List.mem_append_right _)

end Respelled

/-- The tokens of a list in which all phrases up to a kind are numbers. -/
def Phrase.Leaves : Phrase → Token → Prop
  | _, .number _ _ => True
  | .primary, .operator _ => True
  | .power, .operator op => op ≠ .power
  | .term, .operator op => op ≠ .power ∧ op ∉ Operator.products
  | _, _ => False

def Phrase.looser (a b : Phrase) : Phrase :=
  if a.level ≤ b.level then b else a

namespace Phrase

variable {operand : Phrase} {op : Operator}

theorem looser_of_le (below : operand.level ≤ phrase.level) : operand.looser phrase = phrase :=
  if_pos below

theorem looser_primary (operand : Phrase) : operand.looser .primary = operand := by
  cases operand <;> rfl

theorem leaves_number (isOperand : operand.level ≤ Phrase.term.level) (text : String) (value : Float) :
    operand.Leaves (.number text value) := by
  cases operand <;> trivial

theorem leaves_sign (isOperand : operand.level ≤ Phrase.term.level) (sign : Bool) :
    operand.Leaves (signToken sign) := by
  cases operand with
  | sum | expression => exact absurd isOperand (by decide)
  | primary => trivial
  | power => cases sign <;> exact nofun
  | term => cases sign <;> exact ⟨nofun, by decide⟩

theorem leaves_signs (isOperand : operand.level ≤ Phrase.term.level) (run : List Bool) :
    ∀ token ∈ run.map signToken, operand.Leaves token :=
  List.forall_mem_map.2 fun sign _ => leaves_sign isOperand sign

theorem leaves_power (tighter : operand.level < Phrase.power.level) : operand.Leaves (.operator .power) := by
  cases operand with
  | primary => trivial
  | _ => exact absurd tighter (by decide)

theorem leaves_product (isProduct : op ∈ Operator.products) (tighter : operand.level < Phrase.term.level) :
    operand.Leaves (.operator op) := by
  cases operand with
  | primary => trivial
  | power =>
    rintro rfl
    exact absurd isProduct (by decide)
  | _ => exact absurd tighter (by decide)

namespace Leaves

theorem primary {token : Token} (leaf : phrase.Leaves token) : Phrase.primary.Leaves token := by
  cases token with
  | number | operator => trivial
  | _ => cases phrase <;> exact leaf.elim

theorem no_function {name : String} (leaf : phrase.Leaves (.function name)) : False := by
  cases phrase <;> exact leaf

theorem level_of_power (leaf : phrase.Leaves (.operator .power)) : phrase.level < Phrase.power.level := by
  cases phrase with
  | primary => exact Nat.zero_lt_one
  | power => exact (leaf rfl).elim
  | term => exact (leaf.1 rfl).elim
  | _ => exact leaf.elim

theorem level_of_product (leaf : phrase.Leaves (.operator op)) (isProduct : op ∈ Operator.products) :
    phrase.level < Phrase.term.level := by
  cases phrase with
  | primary => exact Nat.zero_lt_two
  | power => exact Nat.one_lt_two
  | term => exact (leaf.2 isProduct).elim
  | _ => exact leaf.elim

end Leaves

theorem eq_primary_of_level (tighter : phrase.level < Phrase.power.level) : phrase = .primary := by
  cases phrase with
  | primary => rfl
  | _ => exact absurd tighter (by decide)

end Phrase

namespace Means

theorem of_number {text : String} {given : Float}
    (respelled : Respelled (Means bindings functions phrase) tokens [.number text given])
    (operand : phrase.level ≤ Phrase.term.level) : Means bindings functions phrase tokens given := by
  generalize target : [Token.number text given] = swept at respelled
  cases respelled with
  | nil => exact nomatch target
  | keep token rest =>
    cases target
    rw [rest.of_nil]
    exact (number text given).raise (Nat.zero_le _) operand
  | replace means rest =>
    cases target
    rw [rest.of_nil, List.append_nil]
    exact means

end Means

/-- That a phrase keeps its value when operands in it are spelled out. Only primaries may be spelled out anywhere; a
looser operand needs a list without the operators and functions that bind tighter. -/
def SpellsOut (bindings : Bindings) (functions : FunctionTable) (operand phrase : Phrase) (tokens : List Token)
    (value : Float) : Prop :=
  (operand = .primary ∨ ∀ token ∈ tokens, operand.Leaves token) →
    ∀ {spelled}, Respelled (Means bindings functions operand) spelled tokens →
      Means bindings functions (operand.looser phrase) spelled value

namespace SpellsOut

variable {operand : Phrase} {left right : List Token} {first second : Float}

theorem group (isOperand : operand.level ≤ Phrase.term.level) (opening closing : String)
    (inner : SpellsOut bindings functions operand .expression tokens value) :
    SpellsOut bindings functions operand .primary (.lparen opening :: (tokens ++ [.rparen closing])) value := by
  intro leaves spelled respelled
  have leavesInner := leaves.imp_right fun all => (List.forall_mem_append.1 (List.forall_mem_cons.1 all).2).1
  obtain ⟨rest, rfl, respelledRest⟩ := respelled.of_cons nofun
  obtain ⟨first, second, rfl, respelledInner, respelledClosing⟩ := respelledRest.split
  obtain ⟨rest, rfl, respelledEnd⟩ := respelledClosing.of_cons nofun
  have spelledInner := inner leavesInner respelledInner
  rw [Phrase.looser_of_le (isOperand.trans (by decide))] at spelledInner
  rw [respelledEnd.of_nil, Phrase.looser_primary]
  exact (Means.group opening closing spelledInner).raise (Nat.zero_le _) isOperand

/-- Only primaries can be spelled out in a power. -/
theorem power (run : List Bool) (atLeft : SpellsOut bindings functions operand .primary left first)
    (atRight : SpellsOut bindings functions operand .power right second)
    (computed : compute first .power (runFactor run * second) = .ok value) :
    SpellsOut bindings functions operand .power (left ++ .operator .power :: (run.map signToken ++ right)) value := by
  intro leaves spelled respelled
  obtain rfl : operand = .primary := leaves.elim id fun all =>
    Phrase.eq_primary_of_level (forall_mem_operation.1 all).2.1.level_of_power
  obtain ⟨front, back, rfl, respelledLeft, respelledRight⟩ := respelled.of_operation
  exact .power run (atLeft (Or.inl rfl) respelledLeft) (atRight (Or.inl rfl) respelledRight) computed

/-- Primaries and powers can be spelled out in a product. -/
theorem product {op : Operator} (run : List Bool) (isProduct : op ∈ Operator.products)
    (minusFirst : run.head? ≠ some false) (atLeft : SpellsOut bindings functions operand .term left first)
    (atRight : SpellsOut bindings functions operand .power right second)
    (computed : compute first op (runFactor run * second) = .ok value) :
    SpellsOut bindings functions operand .term (left ++ .operator op :: (run.map signToken ++ right)) value := by
  intro leaves spelled respelled
  have tighter : operand.level < Phrase.term.level := by
    rcases leaves with rfl | all
    · exact Nat.zero_lt_two
    · exact (forall_mem_operation.1 all).2.1.level_of_product isProduct
  obtain ⟨front, back, rfl, respelledLeft, respelledRight⟩ := respelled.of_operation
  have spelledLeft := atLeft (leaves.imp_right fun all => (forall_mem_operation.1 all).1) respelledLeft
  have spelledRight := atRight (leaves.imp_right fun all => (forall_mem_operation.1 all).2.2.2) respelledRight
  rw [Phrase.looser_of_le tighter.le] at spelledLeft ⊢
  rw [Phrase.looser_of_le (Nat.le_of_lt_succ tighter)] at spelledRight
  exact .product run spelledLeft isProduct minusFirst spelledRight computed

theorem firstTerm (isOperand : operand.level ≤ Phrase.term.level) (run : List Bool)
    (term : SpellsOut bindings functions operand .term tokens value) :
    SpellsOut bindings functions operand .sum (run.map signToken ++ tokens) (addSigned 0.0 run value) := by
  intro leaves spelled respelled
  obtain ⟨rest, rfl, respelledTerm⟩ := respelled.of_signs
  have spelledTerm := term (leaves.imp_right fun all => (List.forall_mem_append.1 all).2) respelledTerm
  rw [Phrase.looser_of_le isOperand] at spelledTerm
  rw [Phrase.looser_of_le (isOperand.trans (by decide))]
  exact .firstTerm run spelledTerm

theorem nextTerm (isOperand : operand.level ≤ Phrase.term.level) {run : List Bool} (signed : run ≠ [])
    (sum : SpellsOut bindings functions operand .sum left first)
    (term : SpellsOut bindings functions operand .term right second) :
    SpellsOut bindings functions operand .sum (left ++ (run.map signToken ++ right)) (addSigned first run second) := by
  intro leaves spelled respelled
  have leavesTerm := leaves.imp_right fun all => (List.forall_mem_append.1 (List.forall_mem_append.1 all).2).2
  obtain ⟨front, back, rfl, respelledSum, respelledRest⟩ := respelled.split
  obtain ⟨rest, rfl, respelledTerm⟩ := respelledRest.of_signs
  have spelledSum := sum (leaves.imp_right fun all => (List.forall_mem_append.1 all).1) respelledSum
  have spelledTerm := term leavesTerm respelledTerm
  rw [Phrase.looser_of_le isOperand] at spelledTerm
  rw [Phrase.looser_of_le (isOperand.trans (by decide))] at spelledSum ⊢
  exact .nextTerm spelledSum signed spelledTerm

end SpellsOut

namespace Means

/-- The value of a list does not change when operands in it are spelled out. -/
theorem spell_out {operand : Phrase} (means : Means bindings functions phrase tokens value)
    (isOperand : operand.level ≤ Phrase.term.level) : SpellsOut bindings functions operand phrase tokens value := by
  induction means with
  | number text value =>
    intro _ spelled respelled
    rw [Phrase.looser_primary]
    exact of_number respelled isOperand
  | bound binding =>
    intro _ spelled respelled
    obtain ⟨rest, rfl, respelledRest⟩ := respelled.of_cons nofun
    rw [respelledRest.of_nil, Phrase.looser_primary]
    exact (bound binding).raise (Nat.zero_le _) isOperand
  | group opening closing _ ih => exact .group isOperand opening closing ih
  | call _ applied ih =>
    intro leaves spelled respelled
    obtain rfl := leaves.resolve_right fun all => (all _ List.mem_cons_self).no_function
    obtain ⟨rest, rfl, respelledRest⟩ := respelled.of_cons nofun
    exact .call (ih (Or.inl rfl) respelledRest) applied
  | negatedCall _ applied ih =>
    intro leaves spelled respelled
    obtain rfl := leaves.resolve_right fun all => (all _ List.mem_cons_self).no_function
    obtain ⟨signed, rfl, respelledSigned⟩ := respelled.of_cons nofun
    obtain ⟨rest, rfl, respelledRest⟩ := respelledSigned.of_cons nofun
    exact .negatedCall (ih (Or.inl rfl) respelledRest) applied
  | ofPrimary _ ih =>
    intro leaves spelled respelled
    have spelledOut := ih leaves respelled
    cases operand with
    | primary => exact .ofPrimary spelledOut
    | _ => exact spelledOut
  | power run _ _ computed ihLeft ihRight => exact .power run ihLeft ihRight computed
  | ofPower _ ih =>
    intro leaves spelled respelled
    have spelledOut := ih leaves respelled
    cases operand with
    | primary | power => exact .ofPower spelledOut
    | _ => exact spelledOut
  | product run _ isProduct minusFirst _ computed ihLeft ihRight =>
    exact .product run isProduct minusFirst ihLeft ihRight computed
  | firstTerm run _ ih => exact .firstTerm isOperand run ih
  | nextTerm _ signed _ ihSum ihTerm => exact .nextTerm isOperand signed ihSum ihTerm
  | ofSum _ finite ih =>
    intro leaves spelled respelled
    have spelledSum := ih leaves respelled
    rw [Phrase.looser_of_le (isOperand.trans (by decide))] at spelledSum
    rw [Phrase.looser_of_le (isOperand.trans (by decide))]
    exact .ofSum spelledSum finite

/-- Where all phrases up to a kind are numbers, a phrase of that kind is one. -/
theorem eq_number {operand : Phrase} (means : Means bindings functions phrase tokens value)
    (below : phrase.level ≤ operand.level) (isOperand : operand.level ≤ Phrase.term.level)
    (leaves : ∀ token ∈ tokens, operand.Leaves token) : ∃ text, tokens = [.number text value] := by
  induction means with
  | number text value => exact ⟨text, rfl⟩
  | bound | group | call | negatedCall =>
    have leaf := leaves _ List.mem_cons_self
    cases operand <;> exact leaf.elim
  | ofPrimary _ ih => exact ih (Nat.zero_le _) leaves
  | ofPower _ ih => exact ih (Nat.le_of_succ_le below) leaves
  | power =>
    have tighter := (forall_mem_operation.1 leaves).2.1.level_of_power
    exact absurd below tighter.not_ge
  | product _ _ isProduct =>
    have tighter := (forall_mem_operation.1 leaves).2.1.level_of_product isProduct
    exact absurd below tighter.not_ge
  | firstTerm | nextTerm | ofSum => exact absurd (below.trans isOperand) (by decide)

end Means

/-- The tokens of a list without parentheses in which variables are replaced. -/
def Token.IsFlat : Token → Prop
  | .number _ _ | .operator _ | .function _ => True
  | _ => False

theorem Phrase.Leaves.flat {phrase : Phrase} {token : Token} (leaf : phrase.Leaves token) : token.IsFlat := by
  cases token with
  | number | operator | function => trivial
  | _ => cases phrase <;> exact leaf.elim

/-- A phrase of a kind that is more than a number. -/
def Compound (bindings : Bindings) (functions : FunctionTable) (phrase : Phrase) (tokens : List Token)
    (value : Float) : Prop :=
  Means bindings functions phrase tokens value ∧ 1 < tokens.length

namespace Means

/-- A phrase of a kind that is replaced is replaced as a whole. -/
theorem replace_whole {operand : Phrase} (means : Means bindings functions phrase tokens value)
    (isOperand : operand.level ≤ Phrase.term.level) (below : phrase.level ≤ operand.level) (more : 1 < tokens.length) :
    ∃ swept, Respelled (Compound bindings functions operand) tokens swept ∧
      Means bindings functions phrase swept value ∧ ∀ token ∈ swept, operand.Leaves token :=
  ⟨[Token.ofValue value], .single ⟨means.raise below isOperand, more⟩,
    (Means.number _ value).raise (Nat.zero_le _) (below.trans isOperand),
    List.forall_mem_singleton.2 (Phrase.leaves_number isOperand _ value)⟩

theorem one_lt_length_operation {left right : List Token} (op : Operator) (run : List Bool) (filled : left ≠ []) :
    1 < (left ++ .operator op :: (run.map signToken ++ right)).length := by
  have nonempty := List.length_pos_of_ne_nil filled
  rw [List.length_append, List.length_cons]
  omega

/-- All phrases up to a kind can be replaced by their values, and what is left means the same. -/
theorem replace_operands {operand : Phrase} (means : Means bindings functions phrase tokens value)
    (isOperand : operand.level ≤ Phrase.term.level) (flat : ∀ token ∈ tokens, token.IsFlat) :
    ∃ swept, Respelled (Compound bindings functions operand) tokens swept ∧
      Means bindings functions phrase swept value ∧ ∀ token ∈ swept, operand.Leaves token := by
  induction means with
  | number text value =>
    exact ⟨_, .refl _, .number text value, List.forall_mem_singleton.2 (Phrase.leaves_number isOperand text value)⟩
  | bound => exact (flat _ List.mem_cons_self).elim
  | group => exact (flat _ List.mem_cons_self).elim
  | call atOperand applied =>
    have more := Nat.succ_lt_succ (List.length_pos_of_ne_nil atOperand.ne_nil)
    exact (call atOperand applied).replace_whole isOperand (Nat.zero_le _) more
  | negatedCall atOperand applied =>
    exact (negatedCall atOperand applied).replace_whole isOperand (Nat.zero_le _) (Nat.succ_lt_succ (Nat.succ_pos _))
  | ofPrimary _ ih =>
    obtain ⟨swept, respelled, means, leaves⟩ := ih flat
    exact ⟨swept, respelled, .ofPrimary means, leaves⟩
  | ofPower _ ih =>
    obtain ⟨swept, respelled, means, leaves⟩ := ih flat
    exact ⟨swept, respelled, .ofPower means, leaves⟩
  | power run atLeft atRight computed ihLeft ihRight =>
    by_cases below : Phrase.power.level ≤ operand.level
    · exact (power run atLeft atRight computed).replace_whole isOperand below
        (one_lt_length_operation .power run atLeft.ne_nil)
    · obtain ⟨flatLeft, _, _, flatRight⟩ := forall_mem_operation.1 flat
      obtain ⟨sweptLeft, respelledLeft, meansLeft, leavesLeft⟩ := ihLeft flatLeft
      obtain ⟨sweptRight, respelledRight, meansRight, leavesRight⟩ := ihRight flatRight
      have leavesPower := Phrase.leaves_power (Nat.lt_of_not_le below)
      exact ⟨_, respelledLeft.operation .power run respelledRight, .power run meansLeft meansRight computed,
        forall_mem_operation.2 ⟨leavesLeft, leavesPower, Phrase.leaves_signs isOperand run, leavesRight⟩⟩
  | @product _ _ _ _ _ op run atLeft isProduct minusFirst atRight computed ihLeft ihRight =>
    by_cases below : Phrase.term.level ≤ operand.level
    · exact (product run atLeft isProduct minusFirst atRight computed).replace_whole isOperand below
        (one_lt_length_operation op run atLeft.ne_nil)
    · obtain ⟨flatLeft, _, _, flatRight⟩ := forall_mem_operation.1 flat
      obtain ⟨sweptLeft, respelledLeft, meansLeft, leavesLeft⟩ := ihLeft flatLeft
      obtain ⟨sweptRight, respelledRight, meansRight, leavesRight⟩ := ihRight flatRight
      have leavesProduct := Phrase.leaves_product isProduct (Nat.lt_of_not_le below)
      exact ⟨_, respelledLeft.operation op run respelledRight,
        .product run meansLeft isProduct minusFirst meansRight computed,
        forall_mem_operation.2 ⟨leavesLeft, leavesProduct, Phrase.leaves_signs isOperand run, leavesRight⟩⟩
  | firstTerm run _ ih =>
    obtain ⟨swept, respelled, means, leaves⟩ := ih (List.forall_mem_append.1 flat).2
    exact ⟨_, (Respelled.refl _).append respelled, .firstTerm run means,
      List.forall_mem_append.2 ⟨Phrase.leaves_signs isOperand run, leaves⟩⟩
  | @nextTerm _ _ _ _ run _ signed _ ihSum ihTerm =>
    obtain ⟨flatSum, flatRest⟩ := List.forall_mem_append.1 flat
    obtain ⟨sweptSum, respelledSum, meansSum, leavesSum⟩ := ihSum flatSum
    obtain ⟨sweptTerm, respelledTerm, meansTerm, leavesTerm⟩ := ihTerm (List.forall_mem_append.1 flatRest).2
    exact ⟨_, respelledSum.append ((Respelled.refl _).append respelledTerm), .nextTerm meansSum signed meansTerm,
      List.forall_mem_append.2 ⟨leavesSum, List.forall_mem_append.2 ⟨Phrase.leaves_signs isOperand run, leavesTerm⟩⟩⟩
  | ofSum _ finite ih =>
    obtain ⟨swept, respelled, means, leaves⟩ := ih flat
    exact ⟨swept, respelled, .ofSum means finite, leaves⟩

end Means

end Reckoner
