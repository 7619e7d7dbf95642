import Mathlib
import Reckoner.Proofs.Evaluation.Records
import Reckoner.Proofs.Evaluation.TwoSweeps

namespace Reckoner

namespace Evaluation

/-- The tokens of a list for which something holds, with their places. -/
def spots (holds : Token → Bool) (start : Nat) (tokens : List Token) : List (Token × Nat) :=
  (tokens.zipIdx start).filter fun spot => holds spot.1

theorem spots_append (holds : Token → Bool) (start : Nat) (first second : List Token) :
    spots holds start (first ++ second) = spots holds start first ++ spots holds (start + first.length) second := by
  rw [spots, List.zipIdx_append, List.filter_append, spots, spots]

/-- The tokens of a list that stand in none of its groups, with their places. As many parentheses are open before it as
its depth. -/
def surface : (depth start : Nat) → List Token → List (Token × Nat)
  | _, _, [] => []
  | depth, start, .lparen _ :: rest => surface (depth + 1) (start + 1) rest
  | depth, start, .rparen _ :: rest => surface (depth - 1) (start + 1) rest
  | 0, start, token :: rest => (token, start) :: surface 0 (start + 1) rest
  | depth + 1, start, _ :: rest => surface (depth + 1) (start + 1) rest

/-- The tokens outside the groups of a list for which something holds. -/
def ownSpots (holds : Token → Bool) (start : Nat) (tokens : List Token) : List (Token × Nat) :=
  (surface 0 start tokens).filter fun spot => holds spot.1

/-- A list whose parentheses match. What follows it stands as deep as the list. -/
structure IsLevel (tokens : List Token) : Prop where
  before : ∀ depth start rest, surface depth start (tokens ++ rest) =
    surface depth start tokens ++ surface depth (start + tokens.length) rest
  hidden : ∀ depth start, surface (depth + 1) start tokens = []

namespace IsLevel

variable {first second : List Token}

theorem single {token : Token} (noGroup : NoGroup token) : IsLevel [token] := by
  obtain ⟨noOpen, noClose⟩ := noGroup
  cases token with
  | lparen => cases noOpen
  | rparen => cases noClose
  | _ => exact ⟨fun depth _ _ => by cases depth <;> rfl, fun _ _ => rfl⟩

theorem append (front : IsLevel first) (back : IsLevel second) : IsLevel (first ++ second) where
  before depth start rest := by
    rw [List.append_assoc, front.before, back.before, front.before, List.append_assoc, List.length_append,
      Nat.add_assoc]
  hidden depth start := by rw [front.before, front.hidden, back.hidden, List.append_nil]

theorem enclosed (inner : IsLevel first) (opening closing : String) :
    IsLevel (.lparen opening :: (first ++ [.rparen closing])) := by
  have through (depth start : Nat) (rest : List Token) :
      surface depth start (.lparen opening :: (first ++ .rparen closing :: rest)) =
        surface depth (start + 1 + first.length + 1) rest := by
    rw [surface, inner.before, inner.hidden, List.nil_append, surface, Nat.add_sub_cancel]
  have none (depth start : Nat) : surface depth start (.lparen opening :: (first ++ [.rparen closing])) = [] :=
    through depth start []
  refine ⟨fun depth start rest => ?_, fun depth start => none (depth + 1) start⟩
  rw [List.cons_append, List.append_assoc, List.singleton_append, through, none, List.nil_append]
  congr 1
  simp only [List.length_cons, List.length_append, List.length_nil]
  omega

end IsLevel

theorem ownSpots_append {first : List Token} (level : IsLevel first) (holds : Token → Bool) (start : Nat)
    (second : List Token) :
    ownSpots holds start (first ++ second) =
      ownSpots holds start first ++ ownSpots holds (start + first.length) second := by
  rw [ownSpots, level.before, List.filter_append, ownSpots, ownSpots]

/-- A group has nothing on the surface. -/
theorem ownSpots_enclosed {inner : List Token} (level : IsLevel inner) (holds : Token → Bool) (start : Nat)
    (opening closing : String) : ownSpots holds start (.lparen opening :: (inner ++ [.rparen closing])) = [] := by
  rw [ownSpots, surface, level.before, level.hidden]
  rfl

theorem ownSpots_single {token : Token} (noGroup : NoGroup token) (holds : Token → Bool) (start : Nat) :
    ownSpots holds start [token] = if holds token then [(token, start)] else [] := by
  have surfaced : surface 0 start [token] = [(token, start)] := by
    obtain ⟨noOpen, noClose⟩ := noGroup
    cases token with
    | lparen => cases noOpen
    | rparen => cases noClose
    | _ => rfl
  rw [ownSpots, surfaced, List.filter_singleton, cond_eq_ite]

theorem operator_cases {op : Operator} (binary : isBinary (.operator op) = true) :
    op = .power ∨ op = .times ∨ op = .divide := by
  cases op with
  | power => exact Or.inl rfl
  | times => exact Or.inr (Or.inl rfl)
  | divide => exact Or.inr (Or.inr rfl)
  | _ => cases binary

/-- A token of an operand, or a sign: neither a parenthesis nor a function nor an operator with two operands. -/
structure IsPlain (token : Token) : Prop where
  noGroup : NoGroup token
  noFunction : token.isFunction = false
  noPower : isPower token = false
  noProduct : isProduct token = false

theorem isPlain_sign (sign : Bool) : IsPlain (signToken sign) := by
  cases sign <;> exact ⟨⟨rfl, rfl⟩, rfl, rfl, rfl⟩

end Evaluation

open Evaluation

def CallRecord.spot (record : CallRecord) : Token × Nat := (.function record.name, record.place)

def OperationRecord.spot (record : OperationRecord) : Token × Nat := (.operator record.operator, record.place)

namespace Enclosed

/-- The left parenthesis of a group. -/
def spot (group : Enclosed) : Token × Nat := (.lparen group.opening, group.place)

/-- Whether a list that starts at a place has the group in it, from one parenthesis to the other. -/
def Within (start : Nat) (tokens : List Token) (group : Enclosed) : Prop :=
  ∃ before after, tokens = before ++ .lparen group.opening :: (group.inner.tokens ++ .rparen group.closing :: after) ∧
    group.place = start + before.length

variable {start : Nat} {first second : List Token} {group : Enclosed}

theorem Within.before (within : group.Within start first) (second : List Token) :
    group.Within start (first ++ second) := by
  obtain ⟨before, after, rfl, place⟩ := within
  exact ⟨before, after ++ second, by simp, place⟩

theorem Within.behind (within : group.Within (start + first.length) second) : group.Within start (first ++ second) := by
  obtain ⟨before, after, rfl, place⟩ := within
  exact ⟨first ++ before, after, by simp, by rw [place, List.length_append, Nat.add_assoc]⟩

theorem Within.cons (within : group.Within (start + 1) second) (token : Token) : group.Within start (token :: second) :=
  @behind start [token] second group within

end Enclosed

/-- What a list of tokens at a place holds: its own calls and operations, and all of its groups. It is put together as
the list is. -/
inductive Inventory :
    (start : Nat) → List Token → List CallRecord → List OperationRecord → List Enclosed → Prop
  | nil (start : Nat) : Inventory start [] [] [] []
  | plain (start : Nat) {token : Token} (plain : IsPlain token) : Inventory start [token] [] [] []
  | append {start : Nat} {first second : List Token} {calls moreCalls : List CallRecord}
      {operations moreOperations : List OperationRecord} {groups moreGroups : List Enclosed}
      (front : Inventory start first calls operations groups)
      (back : Inventory (start + first.length) second moreCalls moreOperations moreGroups) :
      Inventory start (first ++ second) (calls ++ moreCalls) (operations ++ moreOperations) (groups ++ moreGroups)
  | operator (record : OperationRecord) (binary : isBinary (.operator record.operator) = true) :
      Inventory record.place [.operator record.operator] [] [record] []
  | function (record : CallRecord) {tokens : List Token} {calls : List CallRecord} {operations : List OperationRecord}
      {groups : List Enclosed} (operand : Inventory (record.place + 1) tokens calls operations groups) :
      Inventory record.place (.function record.name :: tokens) (calls ++ [record]) operations groups
  | group (group : Enclosed) (inner : Inventory (group.place + 1) group.inner.tokens
        (group.inner.calls (group.place + 1)) (group.inner.operations (group.place + 1))
        (group.inner.groups (group.place + 1))) :
      Inventory group.place (.lparen group.opening :: (group.inner.tokens ++ [.rparen group.closing])) [] []
        (group :: group.inner.groups (group.place + 1))

namespace Inventory

/-- The inventory that a derivation tells, of its tokens from a place on. -/
abbrev Of (start : Nat) (derivation : Derivation) : Prop :=
  Inventory start derivation.tokens (derivation.calls start) (derivation.operations start) (derivation.groups start)

variable {start : Nat} {tokens : List Token} {calls : List CallRecord} {operations : List OperationRecord}
  {groups : List Enclosed}

theorem signs (start : Nat) (run : List Bool) : Inventory start (run.map signToken) [] [] [] := by
  induction run generalizing start with
  | nil => exact .nil start
  | cons sign run ih => exact .append (.plain start (isPlain_sign sign)) (ih (start + 1))

/-- Signs may stand before a list. -/
theorem signed (run : List Bool) (behind : Inventory (start + run.length) tokens calls operations groups) :
    Inventory start (run.map signToken ++ tokens) calls operations groups :=
  .append (signs start run) (by rwa [List.length_map])

theorem level (inventory : Inventory start tokens calls operations groups) : IsLevel tokens := by
  induction inventory with
  | nil => exact ⟨fun _ _ _ => rfl, fun _ _ => rfl⟩
  | plain _ plain => exact .single plain.noGroup
  | append _ _ front back => exact front.append back
  | operator => exact .single ⟨rfl, rfl⟩
  | @function record tokens _ _ _ _ operand =>
    exact (IsLevel.single (show NoGroup (.function record.name) from ⟨rfl, rfl⟩)).append operand
  | group group _ inner => exact inner.enclosed group.opening group.closing

/-- The groups of a list open at its left parentheses. -/
theorem groups_spots (inventory : Inventory start tokens calls operations groups) :
    groups.map Enclosed.spot = spots Token.isOpen start tokens := by
  induction inventory with
  | nil => rfl
  | plain start plain => exact (List.filter_eq_nil_iff.2 (by simpa using plain.noGroup.1)).symm
  | append _ _ front back => rw [List.map_append, front, back, spots_append]
  | operator => rfl
  | function _ _ operand => exact operand
  | group group _ inner =>
    have behind := spots_append Token.isOpen (group.place + 1) group.inner.tokens [.rparen group.closing]
    rw [← inner] at behind
    exact congrArg (group.spot :: ·) (behind.trans (List.append_nil _)).symm

/-- Each group of a list is in it, and has its own inventory. -/
theorem forall_groups (inventory : Inventory start tokens calls operations groups) :
    ∀ group ∈ groups, group.Within start tokens ∧ Of (group.place + 1) group.inner := by
  induction inventory with
  | nil | plain | operator => exact List.forall_mem_nil _
  | append _ _ front back =>
    exact List.forall_mem_append.2 ⟨fun group member => (front group member).imp_left fun within => within.before _,
      fun group member => (back group member).imp_left .behind⟩
  | function record _ operand =>
    exact fun group member => (operand group member).imp_left fun within => within.cons _
  | group group inner ih =>
    exact List.forall_mem_cons.2 ⟨⟨⟨[], [], rfl, rfl⟩, inner⟩, fun nested member =>
      (ih nested member).imp_left fun within => (within.before _).cons _⟩

/-- The calls of a list are those of its own functions. -/
theorem calls_perm (inventory : Inventory start tokens calls operations groups) :
    (calls.map CallRecord.spot).Perm (ownSpots Token.isFunction start tokens) := by
  induction inventory with
  | nil => exact .nil
  | plain start plain =>
    rw [ownSpots_single plain.noGroup, if_neg (ne_true_of_eq_false plain.noFunction)]
    exact .nil
  | append first _ front back =>
    rw [List.map_append, ownSpots_append first.level]
    exact front.append back
  | operator => exact .nil
  | @function record tokens calls _ _ _ operand =>
    rw [List.map_append]
    exact List.perm_append_comm.trans (.cons _ operand)
  | group group inner _ =>
    rw [ownSpots_enclosed inner.level]
    exact .nil

/-- The operations of a list are those of its own operators, in their order. -/
theorem operations_eq (inventory : Inventory start tokens calls operations groups) {holds : Token → Bool}
    (noPlain : ∀ token, IsPlain token → holds token = false) (noFunction : ∀ name, holds (.function name) = false) :
    (operations.filter fun record => holds (.operator record.operator)).map OperationRecord.spot =
      ownSpots holds start tokens := by
  induction inventory with
  | nil => rfl
  | plain start plain =>
    rw [ownSpots_single plain.noGroup, if_neg (ne_true_of_eq_false (noPlain _ plain))]
    rfl
  | append first _ front back => rw [List.filter_append, List.map_append, front, back, ownSpots_append first.level]
  | operator record _ =>
    rw [List.filter_singleton, cond_eq_ite, ownSpots_single ⟨rfl, rfl⟩]
    split <;> rfl
  | function record _ operand =>
    rw [← List.singleton_append, ownSpots_append (.single ⟨rfl, rfl⟩), ownSpots_single ⟨rfl, rfl⟩,
      if_neg (ne_true_of_eq_false (noFunction record.name))]
    exact operand
  | group group inner _ => exact (ownSpots_enclosed inner.level _ _ _ _).symm

/-- The operations of a list are those of operators with two operands. -/
theorem binary (inventory : Inventory start tokens calls operations groups) :
    ∀ record ∈ operations, isBinary (.operator record.operator) = true := by
  induction inventory with
  | nil | plain | group => exact List.forall_mem_nil _
  | append _ _ front back => exact List.forall_mem_append.2 ⟨front, back⟩
  | operator record binary => exact List.forall_mem_singleton.2 binary
  | function _ _ operand => exact operand

theorem powers_eq (inventory : Inventory start tokens calls operations groups) :
    (operations.filter fun record => record.operator = .power).map OperationRecord.spot =
      ownSpots isPower start tokens := by
  rw [← inventory.operations_eq (fun _ plain => plain.noPower) fun _ => rfl]
  refine congrArg _ (List.filter_congr fun record member => ?_)
  rcases operator_cases (inventory.binary record member) with same | same | same <;> rw [same] <;> rfl

theorem products_eq (inventory : Inventory start tokens calls operations groups) :
    (operations.filter fun record => record.operator ∈ Operator.products).map OperationRecord.spot =
      ownSpots isProduct start tokens := by
  rw [← inventory.operations_eq (fun _ plain => plain.noProduct) fun _ => rfl]
  refine congrArg _ (List.filter_congr fun record member => ?_)
  rcases operator_cases (inventory.binary record member) with same | same | same <;> rw [same] <;> rfl

/-- Every operation of a list is a power, or a product or quotient. -/
theorem length_powers_products (inventory : Inventory start tokens calls operations groups) :
    (operations.filter fun record => record.operator = .power).length +
      (operations.filter fun record => record.operator ∈ Operator.products).length = operations.length := by
  refine Eq.trans ?_ (List.length_eq_length_filter_add fun record => decide (record.operator = .power)).symm
  refine congrArg _ (congrArg _ (List.filter_congr fun record member => ?_))
  rcases operator_cases (inventory.binary record member) with same | same | same <;> rw [same] <;> rfl

end Inventory

/-- What a derivation tells of its tokens is their inventory. -/
theorem Derivation.Sound.inventory {bindings : Bindings} {functions : FunctionTable} {phrase : Phrase}
    {derivation : Derivation} (sound : Sound bindings functions phrase derivation) (start : Nat) :
    Inventory.Of start derivation := by
  induction sound generalizing start with
  | number | bound => exact .plain start ⟨⟨rfl, rfl⟩, rfl, rfl, rfl⟩
  | @group opening closing inner _ ih => exact .group ⟨start, opening, closing, inner⟩ (ih (start + 1))
  | @call name negated operand value _ _ ih =>
    refine .function ⟨start, name, operand.argument negated, value⟩ ?_
    cases negated with
    | false => exact ih (start + 1)
    | true => exact .signed [true] (ih (start + 2))
  | ofPrimary _ ih | ofPower _ ih | ofSum _ _ ih => exact ih start
  | @power base exponent value run _ _ _ ihLeft ihRight =>
    let record : OperationRecord :=
      ⟨start + base.tokens.length, base.value, .power, runFactor run * exponent.value, value⟩
    exact (ihLeft start).append ((Inventory.operator record rfl).append (.signed run (ihRight _)))
  | @product left right value op run _ isProduct _ _ _ ihLeft ihRight =>
    have binary : isBinary (.operator op) = true := by
      rcases List.mem_pair.1 isProduct with rfl | rfl <;> rfl
    let record : OperationRecord := ⟨start + left.tokens.length, left.value, op, runFactor run * right.value, value⟩
    exact (ihLeft start).append ((Inventory.operator record binary).append (.signed run (ihRight _)))
  | firstTerm run _ ih => exact .signed run (ih _)
  | @nextTerm sum term run _ _ _ ihSum ihTerm =>
    exact (ihSum start).append (.signed run (ihTerm _))

/-- The kinds of steps. -/
inductive Step.Kind where
  | scanned
  | group
  | call
  | operation
  | reduced
deriving DecidableEq

def Step.kind : Step → Step.Kind
  | .scanned _ => .scanned
  | .group .. => .group
  | .call .. => .call
  | .operation .. => .operation
  | .reduced _ => .reduced

namespace Step.Kind

/-- The tokens of which each has a step of a kind in the groups of a list and in the list itself. -/
def marks : Kind → Token → Bool
  | scanned => fun _ => false
  | group => Token.isOpen
  | call => Token.isFunction
  | operation => isBinary
  | reduced => Token.isOpen

/-- How many steps of a kind a list has for its own calls and operations. -/
def tally (kind : Kind) (calls : List CallRecord) (operations : List OperationRecord) : Nat :=
  match kind with
  | call => calls.length
  | operation => operations.length
  | _ => 0

theorem tally_append (kind : Kind) (calls moreCalls : List CallRecord)
    (operations moreOperations : List OperationRecord) :
    kind.tally (calls ++ moreCalls) (operations ++ moreOperations) =
      kind.tally calls operations + kind.tally moreCalls moreOperations := by
  cases kind <;> first | rfl | exact List.length_append

end Step.Kind

/-- Besides its calls and operations a list records what is left to add up. -/
theorem Account.count_steps (account : Account) (kind : Step.Kind) :
    (account.steps.map Step.kind).count kind =
      kind.tally account.calls (account.powers ++ account.products) + if kind = .reduced then 1 else 0 := by
  have calls : (account.calls.map CallRecord.step).map Step.kind = List.replicate account.calls.length .call := by
    rw [List.map_map]
    exact List.map_const' ..
  have operations (records : List OperationRecord) :
      (records.map OperationRecord.step).map Step.kind = List.replicate records.length .operation := by
    rw [List.map_map]
    exact List.map_const' ..
  simp only [Account.steps, List.map_append, calls, operations, List.count_append, List.count_replicate]
  cases kind <;> simp [Step.Kind.tally, Step.kind]

namespace Inventory

theorem tally_account {start : Nat} {derivation : Derivation} (inventory : Of start derivation) (kind : Step.Kind) :
    kind.tally (derivation.account start).calls
        ((derivation.account start).powers ++ (derivation.account start).products) =
      kind.tally (derivation.calls start) (derivation.operations start) := by
  cases kind with
  | operation =>
    refine List.length_append.trans ?_
    rw [Derivation.account, List.length_reverse]
    exact inventory.length_powers_products
  | _ => rfl

/-- Each group has its own step besides those of its list. -/
theorem count_group {group : Enclosed} (inner : Of (group.place + 1) group.inner) (kind : Step.Kind) :
    (group.steps.map Step.kind).count kind =
      kind.tally (group.inner.calls (group.place + 1)) (group.inner.operations (group.place + 1)) +
        if kind.marks (.lparen group.opening) then 1 else 0 := by
  rw [Enclosed.steps, List.map_append, List.count_append, Account.count_steps, Enclosed.account, inner.tally_account]
  cases kind <;> rfl

/-- Of every kind a list has as many steps as tokens of that kind, those of its groups included. -/
theorem count_steps {start : Nat} {tokens : List Token} {calls : List CallRecord}
    {operations : List OperationRecord} {groups : List Enclosed}
    (inventory : Inventory start tokens calls operations groups) (kind : Step.Kind) :
    kind.tally calls operations + ((groups.flatMap Enclosed.steps).map Step.kind).count kind =
      tokens.countP kind.marks := by
  induction inventory with
  | nil => cases kind <;> rfl
  | plain _ plain =>
    have unmarked := isBinary_eq_false ⟨plain.noPower, plain.noProduct⟩
    cases kind <;> simp [Step.Kind.tally, Step.Kind.marks, plain.noGroup.1, plain.noFunction, unmarked]
  | append _ _ front back =>
    rw [Step.Kind.tally_append, List.flatMap_append, List.map_append, List.count_append, List.countP_append, ← front,
      ← back]
    omega
  | operator record binary =>
    cases kind <;> simp [Step.Kind.tally, Step.Kind.marks, Token.isOpen, Token.isFunction, binary]
  | @function record _ calls operations _ _ operand =>
    have called : kind.tally [record] [] = if kind.marks (.function record.name) then 1 else 0 := by cases kind <;> rfl
    have split := kind.tally_append calls [record] operations []
    rw [List.append_nil] at split
    rw [split, called, List.countP_cons, ← operand]
    omega
  | group group inner ih =>
    have closing : [Token.rparen group.closing].countP kind.marks = 0 := by cases kind <;> rfl
    have none : kind.tally [] [] = 0 := by cases kind <;> rfl
    rw [List.flatMap_cons, List.map_append, List.count_append, inner.count_group, List.countP_cons, List.countP_append,
      closing, none, ← ih]
    omega

end Inventory

end Reckoner
