import Mathlib
import Reckoner.Proofs.Evaluation.Derivation

namespace Reckoner

open Evaluation

namespace Traced

variable {α : Type}

/-- Steps that are taken in any case. -/
def log (steps : List Step) : Traced Unit := ⟨steps, .ok ()⟩

theorem log_append (first second : List Step) : log (first ++ second) = log first >>= fun _ => log second := rfl

theorem bind_of_eq {β : Type} {x : Traced α} {f : α → Traced β} {steps later : List Step} {a : α} {b : β}
    (first : x = ⟨steps, .ok a⟩) (second : f a = ⟨later, .ok b⟩) : x >>= f = ⟨steps ++ later, .ok b⟩ := by
  rw [first]
  change (⟨steps ++ (f a).steps, (f a).result⟩ : Traced β) = _
  rw [second]

theorem bind_pure_of_eq {β : Type} {x : Traced α} {f : α → Traced β} {steps : List Step} {a : α} {b : β}
    (first : x = ⟨steps, .ok a⟩) (second : f a = pure b) : x >>= f = ⟨steps, .ok b⟩ := by
  rw [bind_of_eq first second, List.append_nil]

end Traced

/-- A call as it is recorded, with the place of its function. -/
structure CallRecord where
  place : Nat
  name : String
  argument : Float
  value : Float

def CallRecord.step (record : CallRecord) : Step := .call record.name record.argument record.value

/-- An operation as it is recorded, with the place of its operator. -/
structure OperationRecord where
  place : Nat
  left : Float
  operator : Operator
  right : Float
  value : Float

def OperationRecord.step (record : OperationRecord) : Step :=
  .operation record.left record.operator record.right record.value

/-- What is recorded of one list, a group or the outermost, up to the signed numbers that are left of it. -/
structure Account where
  calls : List CallRecord
  powers : List OperationRecord
  products : List OperationRecord
  reduced : List Token

def Account.steps (account : Account) : List Step :=
  account.calls.map CallRecord.step ++ account.powers.map OperationRecord.step ++
    account.products.map OperationRecord.step ++ [.reduced account.reduced]

/-- A group of a list, with the place of its left parenthesis. -/
structure Enclosed where
  place : Nat
  opening : String
  closing : String
  inner : Derivation

namespace Derivation

/-- The calls of a list that starts at a place, an inner call before the one that takes its value. Those in its groups
are no calls of the list. -/
def calls (start : Nat) : Derivation → List CallRecord
  | .number .. | .bound .. | .group .. => []
  | .call name negated operand value =>
    operand.calls (start + 1 + (operandSign negated).length) ++ [⟨start, name, operand.argument negated, value⟩]
  | .power base run exponent _ => base.calls start ++ exponent.calls (start + base.tokens.length + 1 + run.length)
  | .product left _ run right _ => left.calls start ++ right.calls (start + left.tokens.length + 1 + run.length)
  | .firstTerm run term => term.calls (start + run.length)
  | .nextTerm sum run term => sum.calls start ++ term.calls (start + sum.tokens.length + run.length)

/-- The operations of a list that starts at a place, in the order of their operators. -/
def operations (start : Nat) : Derivation → List OperationRecord
  | .number .. | .bound .. | .group .. => []
  | .call _ negated operand _ => operand.operations (start + 1 + (operandSign negated).length)
  | .power base run exponent value =>
    base.operations start ++
      ⟨start + base.tokens.length, base.value, .power, runFactor run * exponent.value, value⟩ ::
        exponent.operations (start + base.tokens.length + 1 + run.length)
  | .product left op run right value =>
    left.operations start ++ ⟨start + left.tokens.length, left.value, op, runFactor run * right.value, value⟩ ::
      right.operations (start + left.tokens.length + 1 + run.length)
  | .firstTerm run term => term.operations (start + run.length)
  | .nextTerm sum run term => sum.operations start ++ term.operations (start + sum.tokens.length + run.length)

/-- The groups of a list that starts at a place, those in other groups too, in the order of their left parentheses. -/
def groups (start : Nat) : Derivation → List Enclosed
  | .number .. | .bound .. => []
  | .group opening closing inner => ⟨start, opening, closing, inner⟩ :: inner.groups (start + 1)
  | .call _ negated operand _ => operand.groups (start + 1 + (operandSign negated).length)
  | .power base run exponent _ => base.groups start ++ exponent.groups (start + base.tokens.length + 1 + run.length)
  | .product left _ run right _ => left.groups start ++ right.groups (start + left.tokens.length + 1 + run.length)
  | .firstTerm run term => term.groups (start + run.length)
  | .nextTerm sum run term => sum.groups start ++ term.groups (start + sum.tokens.length + run.length)

def powers (start : Nat) (derivation : Derivation) : List OperationRecord :=
  (derivation.operations start).filter fun record => record.operator = .power

def products (start : Nat) (derivation : Derivation) : List OperationRecord :=
  (derivation.operations start).filter fun record => record.operator ∈ Operator.products

/-- What is recorded of a list that starts at a place: all calls, then the powers from the last on, then the products
and quotients from the first on. -/
def account (start : Nat) (derivation : Derivation) : Account where
  calls := derivation.calls start
  powers := (derivation.powers start).reverse
  products := derivation.products start
  reduced := foldSigns (derivation.spelled .multiplied)

end Derivation

namespace Enclosed

def account (group : Enclosed) : Account := group.inner.account (group.place + 1)

/-- The steps of a group: those of its list, and the one of its value. -/
def steps (group : Enclosed) : List Step :=
  group.account.steps ++
    [.group (.lparen group.opening :: (group.inner.spelled .resolved ++ [.rparen group.closing])) group.inner.value]

end Enclosed

namespace Derivation

/-- The steps of an expression: those of its groups, from the one that opens last on, and those of the outermost
list. -/
def steps (derivation : Derivation) : List Step :=
  (derivation.groups 0).reverse.flatMap Enclosed.steps ++ (derivation.account 0).steps

variable {bindings : Bindings} {functions : FunctionTable} {phrase : Phrase} {derivation : Derivation} {room : Nat}

section Calls

theorem callValue_of_ok {name : String} {argument value : Float} (applied : functions.apply name argument = .ok value) :
    callValue functions name argument = Traced.log [.call name argument value] >>= fun _ => pure value := by
  rw [callValue, applied]
  rfl

/-- An open call takes a number and is then a number itself. -/
theorem sweepCalls_call {call : OpenCall} {waiting : List OpenCall} {text : String} {argument value : Float}
    (rest : List Token) (applied : functions.apply call.name (call.argument argument) = .ok value) :
    sweepCalls functions (call :: waiting) (.number text argument :: rest) =
      Traced.log [.call call.name (call.argument argument) value] >>= fun _ =>
        sweepCalls functions waiting (.ofValue value :: rest) := by
  rw [sweepCalls, closeCalls, callValue_of_ok applied, Token.ofValue, sweepCalls]
  simp only [bind_assoc, pure_bind]

/-- What the sweep over calls makes of a list and what it records, whatever follows. -/
def SweepsCalls (functions : FunctionTable) (tokens swept : List Token) (steps : List Step) : Prop :=
  ∀ rest, sweepCalls functions [] (tokens ++ rest) =
    Traced.log steps >>= fun _ => (swept ++ ·) <$> sweepCalls functions [] rest

theorem SweepsCalls.append {first second sweptFirst sweptSecond : List Token} {steps later : List Step}
    (front : SweepsCalls functions first sweptFirst steps) (back : SweepsCalls functions second sweptSecond later) :
    SweepsCalls functions (first ++ second) (sweptFirst ++ sweptSecond) (steps ++ later) := by
  intro rest
  rw [List.append_assoc, front, back, Traced.log_append]
  simp only [map_eq_pure_bind, bind_assoc, pure_bind, List.append_assoc]

/-- Tokens that are all operators. -/
def AllOperators (tokens : List Token) : Prop :=
  ∀ token ∈ tokens, ∃ op, token = .operator op

theorem allOperators_signs (run : List Bool) : AllOperators (run.map signToken) :=
  List.forall_mem_map.2 fun _ _ => ⟨_, rfl⟩

theorem allOperators_cons (op : Operator) (run : List Bool) : AllOperators (.operator op :: run.map signToken) :=
  List.forall_mem_cons.2 ⟨⟨op, rfl⟩, allOperators_signs run⟩

theorem SweepsCalls.of_operators {front : List Token} (operators : AllOperators front) :
    SweepsCalls functions front front [] := by
  induction front with
  | nil => exact fun _ => (id_map _).symm
  | cons token front ih =>
    obtain ⟨⟨op, rfl⟩, others⟩ := List.forall_mem_cons.1 operators
    have one : SweepsCalls functions [.operator op] [.operator op] [] := fun _ => (map_eq_pure_bind _ _).symm
    exact one.append (ih others)

/-- The sweep over calls takes the calls of a primary, and goes on with its value. A function waits, with its minus,
until its operand is a number. -/
theorem Sound.sweepCalls_primary (sound : Sound bindings functions phrase derivation) (isPrimary : phrase = .primary)
    (start : Nat) (waiting : List OpenCall) (rest : List Token) :
    ∃ text, derivation.spelled .called = [.number text derivation.value] ∧
      sweepCalls functions waiting (derivation.spelled .substituted ++ rest) =
        Traced.log ((derivation.calls start).map CallRecord.step) >>= fun _ =>
          sweepCalls functions waiting (.number text derivation.value :: rest) := by
  induction sound generalizing start waiting with
  | number text value => exact ⟨text, rfl, rfl⟩
  | @bound name value => exact ⟨_, rfl, rfl⟩
  | @group _ _ inner => exact ⟨_, rfl, rfl⟩
  | @call name negated operand value _ applied ih =>
    refine ⟨_, rfl, ?_⟩
    rw [calls, List.map_append, Traced.log_append, bind_assoc]
    cases negated with
    | false =>
      have absent : ∀ op ∈ (none : Option Operator), op.isAmong [.minus] = true :=
        fun op member => absurd member (Option.not_mem_none op)
      obtain ⟨text, _, taken⟩ := ih rfl (start + 1) (⟨name, none, absent⟩ :: waiting)
      change sweepCalls functions (_ :: waiting) (operand.spelled .substituted ++ rest) = _
      rw [taken, sweepCalls_call rest applied]
      rfl
    | true =>
      have minus : ∀ op ∈ some Operator.minus, op.isAmong [.minus] = true := fun op same => Option.some.inj same ▸ rfl
      obtain ⟨text, _, taken⟩ := ih rfl (start + 2) (⟨name, some .minus, minus⟩ :: waiting)
      change sweepCalls functions (_ :: waiting) (operand.spelled .substituted ++ rest) = _
      rw [taken, sweepCalls_call rest applied]
      rfl
  | _ => cases isPrimary

/-- The sweep over calls records the calls of a list and replaces its primaries by their values. -/
theorem Sound.sweepsCalls (sound : Sound bindings functions phrase derivation) (start : Nat) :
    SweepsCalls functions (derivation.spelled .substituted) (derivation.spelled .called)
      ((derivation.calls start).map CallRecord.step) := by
  have primary {derivation : Derivation} (sound : Sound bindings functions .primary derivation) (start : Nat) :
      SweepsCalls functions (derivation.spelled .substituted) (derivation.spelled .called)
        ((derivation.calls start).map CallRecord.step) := by
    intro rest
    obtain ⟨text, spelled, taken⟩ := sound.sweepCalls_primary rfl start [] rest
    rw [taken, spelled]
    rfl
  induction sound generalizing start with
  | number text value => exact primary (.number text value) start
  | bound substituted => exact primary (.bound substituted) start
  | group opening closing sound => exact primary (.group opening closing sound) start
  | call sound applied => exact primary (.call sound applied) start
  | ofPrimary _ ih | ofPower _ ih | ofSum _ _ ih => exact ih start
  | power run _ _ _ ihLeft ihRight =>
    rw [calls, List.map_append]
    exact (ihLeft start).append ((SweepsCalls.of_operators (allOperators_cons .power run)).append (ihRight _))
  | @product _ _ _ op run _ _ _ _ _ ihLeft ihRight =>
    rw [calls, List.map_append]
    exact (ihLeft start).append ((SweepsCalls.of_operators (allOperators_cons op run)).append (ihRight _))
  | firstTerm run _ ih => exact (SweepsCalls.of_operators (allOperators_signs run)).append (ih _)
  | @nextTerm _ _ run _ _ _ ihSum ihTerm =>
    rw [calls, List.map_append]
    exact (ihSum start).append ((SweepsCalls.of_operators (allOperators_signs run)).append (ihTerm _))

end Calls

section Powers

/-- What a sweep from the end makes of a list and what it records, whatever it has found behind the list. -/
def SweepsBack {α : Type} (sweep : List Token → Traced α) (found : List Token → α) (tokens swept : List Token)
    (steps : List Step) : Prop :=
  ∀ rest done before, sweep rest = ⟨before, .ok (found done)⟩ →
    sweep (tokens ++ rest) = ⟨before ++ steps, .ok (found (swept ++ done))⟩

namespace SweepsBack

variable {α : Type} {sweep : List Token → Traced α} {found : List Token → α} {first second : List Token}
  {sweptFirst sweptSecond : List Token} {steps later : List Step}

theorem append (front : SweepsBack sweep found first sweptFirst steps)
    (back : SweepsBack sweep found second sweptSecond later) :
    SweepsBack sweep found (first ++ second) (sweptFirst ++ sweptSecond) (later ++ steps) := by
  intro rest done before result
  rw [List.append_assoc, front _ _ _ (back _ _ _ result), List.append_assoc, List.append_assoc]

theorem of_kept (kept : ∀ token ∈ first, SweepsBack sweep found [token] [token] []) :
    SweepsBack sweep found first first [] := by
  induction first with
  | nil => exact fun rest done before result => by simpa using result
  | cons token rest ih =>
    obtain ⟨head, others⟩ := List.forall_mem_cons.1 kept
    exact head.append (ih others)

/-- Tokens that a sweep keeps may stand before a list. -/
theorem behind (back : SweepsBack sweep found second sweptSecond later)
    (kept : ∀ token ∈ first, SweepsBack sweep found [token] [token] []) :
    SweepsBack sweep found (first ++ second) (first ++ sweptSecond) later := by
  have whole := (of_kept kept).append back
  rwa [List.append_nil] at whole

end SweepsBack

/-- The sweep over powers, as long as no power waits for its base. -/
abbrev SweepsPowers (tokens swept : List Token) (steps : List Step) : Prop :=
  SweepsBack sweepPowersFrom (fun done => (none, done)) tokens swept steps

theorem sweepsPowers_single {token : Token} (clean : isPower token = false) : SweepsPowers [token] [token] [] := by
  intro rest done before result
  rw [List.append_nil]
  refine Traced.bind_pure_of_eq result ?_
  cases token with
  | operator op => exact if_neg (ne_true_of_eq_false clean)
  | _ => rfl

theorem sweepsPowers_signs (run : List Bool) : ∀ token ∈ run.map signToken, SweepsPowers [token] [token] [] :=
  List.forall_mem_map.2 fun sign _ => sweepsPowers_single (isPower_signToken sign)

theorem foldSigned_number {op : Operator} {left right value : Float} (leftText rightText : String) (run : List Bool)
    (rest : List Token) (computed : compute left op (runFactor run * right) = .ok value) :
    foldSigned [.number leftText left] op (run.map signToken ++ .number rightText right :: rest) =
      ⟨[.operation left op (runFactor run * right) value], .ok (.ofValue value :: rest)⟩ := by
  have atRight : signedOperand? (run.map signToken ++ .number rightText right :: rest) =
      some (runFactor run * right, rest) := by
    rw [signedOperand?, readSigns_run run false rest rfl]
    rfl
  have operands : signedOperands [.number leftText left] op (run.map signToken ++ .number rightText right :: rest) =
      .ok ⟨[], left, runFactor run * right, rest⟩ := by
    rw [signedOperands, atRight]
    rfl
  rw [foldSigned, operands]
  change (Traced.ofFailing (compute left op (runFactor run * right)) >>= _) = _
  rw [computed]
  rfl

/-- A power is recorded behind what its exponent records. -/
theorem sweepsPowers_power {right : List Token} {steps : List Step} {base exponent value : Float}
    (leftText rightText : String) (run : List Bool) (back : SweepsPowers right [.number rightText exponent] steps)
    (computed : compute base .power (runFactor run * exponent) = .ok value) :
    SweepsPowers (.number leftText base :: .operator .power :: (run.map signToken ++ right)) [.ofValue value]
      (steps ++ [.operation base .power (runFactor run * exponent) value]) := by
  intro rest done before result
  have behind : sweepPowersFrom (run.map signToken ++ right ++ rest) =
      ⟨before ++ steps, .ok (none, run.map signToken ++ .number rightText exponent :: done)⟩ := by
    simpa using (back.behind (sweepsPowers_signs run)) rest done before result
  have opened : sweepPowersFrom (.operator .power :: (run.map signToken ++ right ++ rest)) = _ :=
    Traced.bind_pure_of_eq behind rfl
  have folded := foldSigned_number leftText rightText run done computed
  rw [← List.append_assoc]
  refine Traced.bind_of_eq opened ?_
  rw [takePower, map_eq_pure_bind]
  exact Traced.bind_pure_of_eq folded rfl

theorem Sound.operator_eq_power (sound : Sound bindings functions phrase derivation)
    (below : phrase.level ≤ Phrase.power.level) (start : Nat) :
    ∀ record ∈ derivation.operations start, record.operator = .power := by
  induction sound generalizing start with
  | number | bound | group => exact List.forall_mem_nil _
  | call _ _ ih => exact ih (Nat.zero_le _) _
  | ofPrimary _ ih => exact ih (Nat.zero_le _) start
  | power _ _ _ _ ihLeft ihRight =>
    exact List.forall_mem_append.2 ⟨ihLeft (Nat.zero_le _) start, List.forall_mem_cons.2 ⟨rfl, ihRight le_rfl _⟩⟩
  | ofPower | product | firstTerm | nextTerm | ofSum => exact absurd below (by decide)

theorem Sound.operations_primary (sound : Sound bindings functions phrase derivation) (isPrimary : phrase = .primary)
    (start : Nat) : derivation.operations start = [] := by
  induction sound generalizing start with
  | number | bound | group => rfl
  | call _ _ ih => exact ih rfl _
  | _ => cases isPrimary

/-- The sweep over powers records the powers of a list from its end, and replaces them by their values. An exponent is a
number before its base is met. -/
theorem Sound.sweepsPowers (sound : Sound bindings functions phrase derivation) (start : Nat) :
    SweepsPowers (derivation.spelled .called) (derivation.spelled .powered)
      ((derivation.powers start).reverse.map OperationRecord.step) := by
  induction sound generalizing start with
  | number | bound | group => exact sweepsPowers_single rfl
  | @call name negated operand value sound applied _ =>
    rw [powers, (Sound.call sound applied).operations_primary rfl]
    exact sweepsPowers_single rfl
  | ofPrimary _ ih | ofPower _ ih | ofSum _ _ ih => exact ih start
  | @power base exponent value run atLeft atRight computed _ ihRight =>
    obtain ⟨leftText, spelledLeft⟩ := atLeft.single_called
    obtain ⟨rightText, spelledRight⟩ := atRight.single_powered
    have back := ihRight (start + base.tokens.length + 1 + run.length)
    rw [spelledRight] at back
    have spelled : (Derivation.power base run exponent value).spelled .called =
        .number leftText base.value :: .operator .power :: (run.map signToken ++ exponent.spelled .called) :=
      congrArg (· ++ _) spelledLeft
    have recorded : (Derivation.power base run exponent value).powers start =
        ⟨start + base.tokens.length, base.value, .power, runFactor run * exponent.value, value⟩ ::
          exponent.powers (start + base.tokens.length + 1 + run.length) := by
      rw [powers, operations, atLeft.operations_primary rfl]
      rfl
    rw [spelled, recorded, List.reverse_cons, List.map_append]
    exact sweepsPowers_power leftText rightText run back computed
  | @product left right value op run _ isProduct _ _ _ ihLeft ihRight =>
    have noPower : op ≠ .power := by
      rintro rfl
      exact absurd isProduct (by decide)
    have known : (Token.operator op).IsKnown := (by decide : Operator.products ⊆ Operator.all) isProduct
    have kept : ∀ token ∈ .operator op :: run.map signToken, SweepsPowers [token] [token] [] :=
      List.forall_mem_cons.2 ⟨sweepsPowers_single (isPower_of_leaves known noPower), sweepsPowers_signs run⟩
    have recorded : (Derivation.product left op run right value).powers start =
        left.powers start ++ right.powers (start + left.tokens.length + 1 + run.length) := by
      rw [powers, operations, List.filter_append, List.filter_cons_of_neg (by simpa using noPower)]
      rfl
    rw [recorded, List.reverse_append, List.map_append]
    exact (ihLeft start).append ((ihRight _).behind kept)
  | firstTerm run _ ih => exact (ih _).behind (sweepsPowers_signs run)
  | @nextTerm sum term run _ _ _ ihSum ihTerm =>
    have recorded : (Derivation.nextTerm sum run term).powers start =
        sum.powers start ++ term.powers (start + sum.tokens.length + run.length) := by
      rw [powers, operations, List.filter_append]
      rfl
    rw [recorded, List.reverse_append, List.map_append]
    exact (ihSum start).append ((ihTerm _).behind (sweepsPowers_signs run))

end Powers

section Products

/-- What the sweep over products makes of a list and what it records, behind a list without an open product. -/
def SweepsProducts (tokens swept : List Token) (steps : List Step) : Prop :=
  ∀ done, tokens.foldlM ProductSweep.take ⟨done, none⟩ =
    (⟨steps, .ok ⟨done ++ swept, none⟩⟩ : Traced ProductSweep)

theorem SweepsProducts.append {first second sweptFirst sweptSecond : List Token} {steps later : List Step}
    (front : SweepsProducts first sweptFirst steps) (back : SweepsProducts second sweptSecond later) :
    SweepsProducts (first ++ second) (sweptFirst ++ sweptSecond) (steps ++ later) := by
  intro done
  rw [List.foldlM_append, Traced.bind_of_eq (front done) (back _), List.append_assoc]

theorem SweepsProducts.of_clean {tokens : List Token} (clean : ∀ token ∈ tokens, isProduct token = false) :
    SweepsProducts tokens tokens [] := by
  intro done
  induction tokens generalizing done with
  | nil =>
    rw [List.append_nil]
    rfl
  | cons token rest ih =>
    obtain ⟨first, others⟩ := List.forall_mem_cons.1 clean
    rw [List.foldlM_cons, ProductSweep.take_other first, pure_bind, ih others, List.append_assoc]
    rfl

theorem SweepsProducts.behind {front tokens swept : List Token} {steps : List Step}
    (back : SweepsProducts tokens swept steps) (clean : ∀ token ∈ front, isProduct token = false) :
    SweepsProducts (front ++ tokens) (front ++ swept) steps :=
  (of_clean clean).append back

theorem isProduct_signs (run : List Bool) : ∀ token ∈ run.map signToken, isProduct token = false :=
  List.forall_mem_map.2 fun sign _ => by cases sign <;> rfl

/-- A product is recorded behind what its left operand records. -/
theorem SweepsProducts.product {left : List Token} {steps : List Step} {first second value : Float} {op : Operator}
    (leftText rightText : String) (run : List Bool) (front : SweepsProducts left [.number leftText first] steps)
    (isProductOp : op ∈ Operator.products) (computed : compute first op (runFactor run * second) = .ok value) :
    SweepsProducts (left ++ .operator op :: (run.map signToken ++ [.number rightText second])) [.ofValue value]
      (steps ++ [.operation first op (runFactor run * second) value]) := by
  intro done
  have opened : ProductSweep.take ⟨done ++ [.number leftText first], none⟩ (.operator op) =
      pure ⟨done, some ⟨first, op, false⟩⟩ := by
    rw [ProductSweep.take_operator (isAmong_of_mem_products isProductOp), openProduct, leftOperand?_append]
  have closed : ProductSweep.take ⟨done, some ⟨first, op, runNegative run⟩⟩ (.number rightText second) =
      ⟨[.operation first op (runFactor run * second) value], .ok ⟨done ++ [.ofValue value], none⟩⟩ := by
    change closeProduct done ⟨first, op, runNegative run⟩ second = _
    change (Traced.ofFailing (compute first op (runFactor run * second)) >>= _) = _
    rw [computed]
    rfl
  rw [List.foldlM_append]
  refine Traced.bind_of_eq (front done) ?_
  rw [List.foldlM_cons, opened, pure_bind, List.foldlM_append, foldlM_take_run_signs, pure_bind, List.foldlM_cons]
  exact Traced.bind_pure_of_eq closed rfl

/-- The sweep over products records the products of a list from its start, and replaces them by their values. -/
theorem Sound.sweepsProducts (sound : Sound bindings functions phrase derivation) (start : Nat) :
    SweepsProducts (derivation.spelled .powered) (derivation.spelled .multiplied)
      ((derivation.products start).map OperationRecord.step) := by
  have powerful {derivation : Derivation} (sound : Sound bindings functions .power derivation) (start : Nat) :
      derivation.products start = [] := by
    refine List.filter_eq_nil_iff.2 fun record member => ?_
    rw [sound.operator_eq_power le_rfl start record member]
    decide
  induction sound generalizing start with
  | number | bound | group => exact SweepsProducts.of_clean (List.forall_mem_singleton.2 rfl)
  | @call name negated operand value sound applied _ =>
    rw [powerful (.ofPrimary (.call sound applied))]
    exact SweepsProducts.of_clean (List.forall_mem_singleton.2 rfl)
  | ofPrimary _ ih | ofPower _ ih | ofSum _ _ ih => exact ih start
  | power run atLeft atRight computed _ _ =>
    rw [powerful (.power run atLeft atRight computed)]
    exact SweepsProducts.of_clean (List.forall_mem_singleton.2 rfl)
  | @product left right value op run atLeft isProductOp minusFirst atRight computed ihLeft _ =>
    obtain ⟨leftText, spelledLeft⟩ := atLeft.single_multiplied
    obtain ⟨rightText, spelledRight⟩ := atRight.single_powered
    have front := ihLeft start
    rw [spelledLeft] at front
    have spelled : (Derivation.product left op run right value).spelled .powered =
        left.spelled .powered ++ .operator op :: (run.map signToken ++ [.number rightText right.value]) :=
      congrArg (fun last => _ ++ .operator op :: (_ ++ last)) spelledRight
    have recorded : (Derivation.product left op run right value).products start = left.products start ++
        [⟨start + left.tokens.length, left.value, op, runFactor run * right.value, value⟩] := by
      rw [products, operations, List.filter_append, List.filter_cons_of_pos (by simpa using isProductOp)]
      exact congrArg (fun last => left.products start ++ _ :: last) (powerful atRight _)
    rw [spelled, recorded, List.map_append]
    exact SweepsProducts.product leftText rightText run front isProductOp computed
  | firstTerm run _ ih => exact (ih _).behind (isProduct_signs run)
  | @nextTerm sum term run _ _ _ ihSum ihTerm =>
    have recorded : (Derivation.nextTerm sum run term).products start =
        sum.products start ++ term.products (start + sum.tokens.length + run.length) := by
      rw [products, operations, List.filter_append]
      rfl
    rw [recorded, List.map_append]
    exact (ihSum start).append ((ihTerm _).behind (isProduct_signs run))

end Products

section Lists

theorem substitute_append {first second replacedFirst replacedSecond : List Token}
    (front : substitute room bindings first = .ok replacedFirst)
    (back : substitute room bindings second = .ok replacedSecond) :
    substitute room bindings (first ++ second) = .ok (replacedFirst ++ replacedSecond) := by
  induction first generalizing replacedFirst with
  | nil =>
    cases front
    exact back
  | cons token rest ih =>
    obtain ⟨replaced, isReplaced, later⟩ := bind_eq_ok.1 front
    obtain ⟨others, areOthers, same⟩ := bind_eq_ok.1 later
    cases same
    exact bind_eq_ok.2 ⟨replaced, isReplaced, bind_eq_ok.2 ⟨_, ih areOthers, rfl⟩⟩

theorem substitute_operators {tokens : List Token} (operators : AllOperators tokens) :
    substitute room bindings tokens = .ok tokens := by
  induction tokens with
  | nil => rfl
  | cons token rest ih =>
    obtain ⟨⟨op, rfl⟩, others⟩ := List.forall_mem_cons.1 operators
    exact bind_eq_ok.2 ⟨_, rfl, bind_eq_ok.2 ⟨_, ih others, rfl⟩⟩

/-- The bound names of a list are replaced by their values. -/
theorem Sound.substitute_eq (sound : Sound bindings functions phrase derivation) :
    substitute room bindings (derivation.spelled .resolved) = .ok (derivation.spelled .substituted) := by
  induction sound with
  | number | group => rfl
  | bound substituted => exact bind_eq_ok.2 ⟨_, substituted room, rfl⟩
  | @call name negated operand _ _ _ ih =>
    have sign : substitute room bindings (operandSign negated) = .ok (operandSign negated) := by cases negated <;> rfl
    exact bind_eq_ok.2 ⟨.function name, rfl, bind_eq_ok.2 ⟨_, substitute_append sign ih, rfl⟩⟩
  | ofPrimary _ ih | ofPower _ ih | ofSum _ _ ih => exact ih
  | power run _ _ _ ihLeft ihRight =>
    exact substitute_append ihLeft (substitute_append (substitute_operators (allOperators_cons .power run)) ihRight)
  | @product _ _ _ op run _ _ _ _ _ ihLeft ihRight =>
    exact substitute_append ihLeft (substitute_append (substitute_operators (allOperators_cons op run)) ihRight)
  | firstTerm run _ ih => exact substitute_append (substitute_operators (allOperators_signs run)) ih
  | @nextTerm _ _ run _ _ _ ihSum ihTerm =>
    exact substitute_append ihSum (substitute_append (substitute_operators (allOperators_signs run)) ihTerm)

theorem Sound.applyFunctions_eq (sound : Sound bindings functions phrase derivation) (start : Nat) :
    applyFunctions functions (derivation.spelled .substituted) =
      ⟨(derivation.calls start).map CallRecord.step, .ok (derivation.spelled .called)⟩ := by
  have swept : sweepCalls functions [] (derivation.spelled .substituted) =
      ⟨(derivation.calls start).map CallRecord.step, .ok (derivation.spelled .called)⟩ := by
    have whole := sound.sweepsCalls start []
    rw [List.append_nil] at whole
    refine whole.trans (Traced.bind_pure_of_eq rfl ?_)
    exact congrArg pure (List.append_nil _)
  have complete : checkArguments (derivation.spelled .called) = .ok () := by
    refine checkArguments_eq_ok.2 fun token member => ?_
    have leaf := (sound.leaves .called token member).2
    cases token with
    | function name => exact leaf.elim
    | _ => rfl
  rw [Evaluation.applyFunctions_eq]
  refine Traced.bind_pure_of_eq swept ?_
  rw [complete]
  rfl

theorem Sound.reducePrecedence_eq (sound : Sound bindings functions phrase derivation) (start : Nat) :
    reducePrecedence (derivation.spelled .called) =
      ⟨(derivation.account start).powers.map OperationRecord.step ++
        (derivation.account start).products.map OperationRecord.step, .ok (derivation.account start).reduced⟩ := by
  have powered : rounds powerRound ((derivation.spelled .called).countP isPower) (derivation.spelled .called) =
      ⟨(derivation.account start).powers.map OperationRecord.step, .ok (derivation.spelled .powered)⟩ := by
    have whole := sound.sweepsPowers start [] [] [] rfl
    rw [List.append_nil, List.append_nil, List.nil_append] at whole
    rw [rounds_powerRound fun token member => (sound.leaves .called token member).1]
    exact Traced.bind_pure_of_eq whole rfl
  have multiplied : rounds productRound ((derivation.spelled .powered).countP isProduct) (derivation.spelled .powered) =
      ⟨(derivation.account start).products.map OperationRecord.step, .ok (derivation.spelled .multiplied)⟩ := by
    rw [rounds_productRound fun token member => (sound.leaves .powered token member).1]
    exact Traced.bind_pure_of_eq (sound.sweepsProducts start []) rfl
  exact Traced.bind_of_eq powered (Traced.bind_pure_of_eq multiplied rfl)

/-- A list without groups comes to the value of its derivation, and records its account. -/
theorem Sound.evaluateFlat_eq (sound : Sound bindings functions .expression derivation) (start : Nat) :
    evaluateFlat room bindings functions (derivation.spelled .resolved) =
      ⟨(derivation.account start).steps, .ok derivation.value⟩ := by
  have valid : validate (derivation.spelled .substituted) = .ok () :=
    validate_of_means (sound.means le_rfl) fun token member => (sound.leaves .substituted token member).2
  cases sound with
  | ofSum sound finite =>
    have summed : sumTerms (derivation.account start).reduced = .ok derivation.value :=
      sumTerms_of_means (sound.means (by decide)) fun token member => (sound.leaves .multiplied token member).2
    have last : (do
        let value ← Traced.ofFailing (sumTerms (derivation.account start).reduced)
        if value.isFinite then return value else Traced.fail .sumTooLarge) = pure derivation.value := by
      rw [summed]
      exact if_pos finite
    rw [evaluateFlat, sound.substitute_eq]
    change (Traced.ofFailing (validate (derivation.spelled .substituted)) >>= _) = _
    rw [valid]
    refine (Traced.bind_of_eq (sound.applyFunctions_eq start) (Traced.bind_of_eq (sound.reducePrecedence_eq start)
      (Traced.bind_pure_of_eq rfl last))).trans ?_
    simp [Account.steps, account]

end Lists

end Derivation

end Reckoner
