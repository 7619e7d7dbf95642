import Mathlib
import Reckoner.Proofs.Evaluation.Powers
import Reckoner.Proofs.Evaluation.Products
import Reckoner.Proofs.Evaluation.Sum

namespace Reckoner.Evaluation

variable {bindings : Bindings} {functions : FunctionTable}

theorem readSigns_run (run : List Bool) (negative : Bool) {token : Token} (rest : List Token)
    (noSign : token.isSign = false) :
    readSigns negative (run.map signToken ++ token :: rest) = (run.foldl (· ^^ ·) negative, token :: rest) := by
  induction run generalizing negative with
  | nil => simp [readSigns, noSign]
  | cons sign run ih => simp [readSigns, ih]

theorem exists_run_of_readSigns {tokens rest : List Token} {negative result : Bool}
    (known : ∀ token ∈ tokens, token.IsKnown) (read : readSigns negative tokens = (result, rest)) :
    ∃ run : List Bool, tokens = run.map signToken ++ rest ∧ run.foldl (· ^^ ·) negative = result := by
  induction tokens generalizing negative with
  | nil =>
    cases read
    exact ⟨[], rfl, rfl⟩
  | cons token tokens ih =>
    cases sign : token.isSign with
    | true =>
      rw [readSigns, if_pos sign] at read
      obtain ⟨run, rfl, parity⟩ := ih (fun other member => known other (List.mem_cons_of_mem token member)) read
      refine ⟨token.isMinus :: run, ?_, parity⟩
      rw [List.map_cons, List.cons_append, ← eq_signToken (known token List.mem_cons_self) sign]
    | false =>
      rw [readSigns, if_neg (ne_true_of_eq_false sign)] at read
      cases read
      exact ⟨[], rfl, rfl⟩

theorem isPower_signToken (sign : Bool) : isPower (signToken sign) = false := by
  cases sign <;> rfl

theorem eq_power {op : Operator} (known : (Token.operator op).IsKnown) (power : op.isAmong [.power] = true) :
    op = .power := by
  cases op with
  | unknown symbol other => simp [Token.IsKnown, Operator.all] at known
  | power => rfl
  | _ => exact Bool.noConfusion power

theorem isPower_of_leaves {token : Token} (known : token.IsKnown) (leaf : Phrase.power.Leaves token) :
    isPower token = false := by
  cases power : isPower token with
  | false => rfl
  | true =>
    obtain ⟨op, rfl⟩ := exists_operator_of_isOperatorIn power
    exact (leaf (eq_power known power)).elim

theorem respelled_known {part : List Token → Float → Prop} {tokens swept : List Token}
    (known : ∀ token ∈ tokens, token.IsKnown) (respelled : Respelled part tokens swept) :
    ∀ token ∈ swept, token.IsKnown := by
  intro token member
  rcases respelled.mem member with old | ⟨value, rfl⟩
  · exact known token old
  · trivial

/-- With its left operand in front, a power that is held back is a power of the grammar. -/
theorem respelled_of_foldSigned {token : Token} {rest swept folded : List Token}
    (known : ∀ token ∈ rest, token.IsKnown) (respelled : Respelled (Means bindings functions .power) rest swept)
    (isFolded : (foldSigned [token] .power swept).result = .ok folded) :
    Respelled (Means bindings functions .power) (token :: .operator .power :: rest) folded := by
  obtain ⟨init, leftText, left, negative, rightText, right, after, value, single, read, computed, rfl⟩ :=
    foldSigned_eq_ok.1 isFolded
  obtain ⟨rfl, same⟩ := List.append_inj' (show [] ++ [token] = init ++ [_] from single) rfl
  cases same
  obtain ⟨run, rfl, parity⟩ := exists_run_of_readSigns (respelled_known known respelled) read
  obtain ⟨behind, rfl, respelledBehind⟩ := respelled.of_signs
  obtain ⟨exponent, others, rfl, respelledExponent, respelledOthers⟩ :=
    @Respelled.split _ _ [.number rightText right] _ respelledBehind
  have factor : compute left .power (runFactor run * right) = .ok value := by
    rw [runFactor, runNegative, parity]
    exact computed
  have means : Means bindings functions .power
      ([.number leftText left] ++ .operator .power :: (run.map signToken ++ exponent)) value :=
    .power run (.number leftText left) (Means.of_number respelledExponent (by decide)) factor
  simpa using Respelled.replace means respelledOthers

theorem respelled_of_sweepPowersFrom {tokens swept : List Token} {pending : Option Operator}
    (known : ∀ token ∈ tokens, token.IsKnown) (result : (sweepPowersFrom tokens).result = .ok (pending, swept)) :
    ∃ rest, tokens = (pending.map Token.operator).toList ++ rest ∧
      Respelled (Means bindings functions .power) rest swept := by
  induction tokens generalizing pending swept with
  | nil =>
    cases result
    exact ⟨[], rfl, .nil⟩
  | cons token tokens ih =>
    obtain ⟨⟨before, list⟩, resultRest, taken⟩ := Traced.result_bind_eq_ok.1 result
    obtain ⟨_, knownRest⟩ := List.forall_mem_cons.1 known
    obtain ⟨rest, rfl, respelled⟩ := ih knownRest resultRest
    rcases before with _ | op
    · cases token with
      | operator op =>
        rw [takePower] at taken
        split at taken
        · cases taken
          exact ⟨rest, rfl, respelled⟩
        · cases taken
          exact ⟨.operator op :: rest, rfl, .keep _ respelled⟩
      | _ =>
        cases taken
        exact ⟨_, rfl, .keep _ respelled⟩
    · obtain ⟨knownOperator, knownBehind⟩ := List.forall_mem_cons.1 knownRest
      obtain rfl := eq_power knownOperator ((sweepPowersFrom_swept resultRest).1 op rfl)
      rw [takePower, map_eq_pure_bind] at taken
      obtain ⟨folded, isFolded, same⟩ := Traced.result_bind_eq_ok.1 taken
      cases same
      exact ⟨_, rfl, respelled_of_foldSigned knownBehind respelled isFolded⟩

theorem respelled_of_sweepPowers {tokens swept : List Token} (known : ∀ token ∈ tokens, token.IsKnown)
    (result : (sweepPowers tokens).result = .ok swept) : Respelled (Means bindings functions .power) tokens swept := by
  obtain ⟨⟨_ | op, list⟩, isSwept, closed⟩ := Traced.result_bind_eq_ok.1 result
  · cases closed
    obtain ⟨rest, rfl, respelled⟩ := respelled_of_sweepPowersFrom known isSwept
    exact respelled
  · exact nomatch closed

theorem sweepPowersFrom_keep {token : Token} {rest swept : List Token} (noPower : isPower token = false)
    (result : (sweepPowersFrom rest).result = .ok (none, swept)) :
    (sweepPowersFrom (token :: rest)).result = .ok (none, token :: swept) := by
  have kept : takePower token (none, swept) = pure (none, token :: swept) := by
    cases token with
    | operator op => exact if_neg (ne_true_of_eq_false noPower)
    | _ => rfl
  exact Traced.result_bind_eq_ok.2 ⟨_, result, by rw [kept]; rfl⟩

theorem sweepPowersFrom_run (run : List Bool) {rest swept : List Token}
    (result : (sweepPowersFrom rest).result = .ok (none, swept)) :
    (sweepPowersFrom (run.map signToken ++ rest)).result = .ok (none, run.map signToken ++ swept) := by
  induction run with
  | nil => exact result
  | cons sign run ih => exact sweepPowersFrom_keep (isPower_signToken sign) ih

/-- The sweep over powers replaces each power by its value. -/
theorem sweepPowersFrom_of_means {phrase : Phrase} {tokens rest swept : List Token} {value : Float}
    (means : Means bindings functions phrase tokens value) (isPowerPhrase : phrase.level ≤ Phrase.power.level)
    (leaves : ∀ token ∈ tokens, Phrase.primary.Leaves token)
    (result : (sweepPowersFrom rest).result = .ok (none, swept)) :
    ∃ text, (tokens = [.number text value] ∨ text = Double.text value) ∧
      (sweepPowersFrom (tokens ++ rest)).result = .ok (none, .number text value :: swept) := by
  induction means generalizing rest swept with
  | number text value => exact ⟨text, Or.inl rfl, sweepPowersFrom_keep rfl result⟩
  | bound | group | call | negatedCall => exact (leaves _ List.mem_cons_self).elim
  | ofPrimary _ ih => exact ih (Nat.zero_le _) leaves result
  | @power left right base exponent value run atLeft atRight computed _ ihRight =>
    obtain ⟨leavesLeft, _, _, leavesRight⟩ := forall_mem_operation.1 leaves
    obtain ⟨leftText, rfl⟩ :=
      atLeft.eq_number (show Phrase.primary.level ≤ Phrase.primary.level from le_rfl) (by decide)
      leavesLeft
    obtain ⟨rightText, _, resultRight⟩ := ihRight le_rfl leavesRight result
    have resultRun := sweepPowersFrom_run run resultRight
    have resultPower : (sweepPowersFrom (.operator .power :: (run.map signToken ++ (right ++ rest)))).result =
        .ok (some .power, run.map signToken ++ .number rightText exponent :: swept) :=
      Traced.result_bind_eq_ok.2 ⟨_, resultRun, rfl⟩
    have folded := foldSigned_eq_ok.2 ⟨[], leftText, base, _, rightText, exponent, swept, value, rfl,
      readSigns_run run false swept rfl, computed, rfl⟩
    refine ⟨Double.text value, Or.inr rfl, ?_⟩
    simp only [List.append_assoc, List.cons_append, List.nil_append]
    refine Traced.result_bind_eq_ok.2 ⟨_, resultPower, ?_⟩
    rw [takePower, map_eq_pure_bind]
    exact Traced.result_bind_eq_ok.2 ⟨_, folded, rfl⟩
  | ofPower | product => exact absurd isPowerPhrase (by decide)
  | firstTerm | nextTerm | ofSum => exact absurd isPowerPhrase (by decide)

theorem sweepPowers_of_respelled {tokens swept : List Token} (known : ∀ token ∈ tokens, token.IsKnown)
    (leaves : ∀ token ∈ tokens, Phrase.primary.Leaves token)
    (respelled : Respelled (Compound bindings functions .power) tokens swept)
    (leavesSwept : ∀ token ∈ swept, Phrase.power.Leaves token) : (sweepPowers tokens).result = .ok swept := by
  have swept : (sweepPowersFrom tokens).result = .ok (none, swept) := by
    induction respelled with
    | nil => rfl
    | keep token _ ih =>
      obtain ⟨knownToken, knownRest⟩ := List.forall_mem_cons.1 known
      obtain ⟨leafToken, leavesRest⟩ := List.forall_mem_cons.1 leavesSwept
      exact sweepPowersFrom_keep (isPower_of_leaves knownToken leafToken)
        (ih knownRest (List.forall_mem_cons.1 leaves).2 leavesRest)
    | replace compound _ ih =>
      obtain ⟨leavesBlock, leavesRest⟩ := List.forall_mem_append.1 leaves
      have later := ih (List.forall_mem_append.1 known).2 leavesRest (List.forall_mem_cons.1 leavesSwept).2
      obtain ⟨text, shape, result⟩ := sweepPowersFrom_of_means compound.1 le_rfl leavesBlock later
      rcases shape with rfl | rfl
      · exact absurd compound.2 (by simp)
      · exact result
  exact Traced.result_bind_eq_ok.2 ⟨_, swept, rfl⟩

theorem mem_products {op : Operator} (known : (Token.operator op).IsKnown)
    (product : op.isAmong Operator.products = true) :
    op ∈ Operator.products := by
  rw [Operator.isAmong_of_mem_all known] at product
  exact List.contains_iff_mem.1 product

theorem isAmong_of_mem_products {op : Operator} (product : op ∈ Operator.products) :
    op.isAmong Operator.products = true := by
  rcases List.mem_cons.1 product with rfl | later
  · rfl
  · rcases List.mem_cons.1 later with rfl | none
    · rfl
    · exact nomatch none

/-- Whether a token may follow another: the signs behind an operator that multiplies or divides begin with a minus. -/
def MinusFirst (token next : Token) : Prop :=
  isProduct token = true → next ≠ .operator .plus

namespace ProductSweep

/-- The tokens that a state of the sweep stands for. The list that is done spells some of them; behind these come the
left operand of an open product, its operator, and the signs read so far. -/
inductive Spells (bindings : Bindings) (functions : FunctionTable) : List Token → ProductSweep → Prop
  | done {source done : List Token} (respelled : Respelled (Means bindings functions .term) source done) :
      Spells bindings functions source ⟨done, none⟩
  | opened {source done block : List Token} {left : Float} {op : Operator} (run : List Bool)
      (respelled : Respelled (Means bindings functions .term) source done)
      (means : Means bindings functions .term block left) (isProductOp : op ∈ Operator.products)
      (runFirst : run.head? ≠ some false) :
      Spells bindings functions (source ++ (block ++ .operator op :: run.map signToken))
        ⟨done, some ⟨left, op, runNegative run⟩⟩

/-- One token more is read. A plus right behind the operator of a product would not be read by the grammar. -/
theorem Takes.spells {source : List Token} {token : Token} {sweep next : ProductSweep}
    (takes : sweep.Takes token next) (known : token.IsKnown)
    (minusFirst : ∀ last ∈ source.getLast?, MinusFirst last token) (spells : Spells bindings functions source sweep) :
    Spells bindings functions (source ++ [token]) next := by
  cases takes with
  | keep noProduct =>
    cases spells with
    | done respelled => exact .done (respelled.append (.refl [token]))
  | opening isProductOp =>
    cases spells with
    | done respelled =>
      obtain ⟨source, block, rfl, respelledSource, respelledBlock⟩ := respelled.split
      rw [List.append_assoc]
      exact .opened [] respelledSource (Means.of_number respelledBlock le_rfl) (mem_products known isProductOp) nofun
  | sign sign =>
    cases spells with
    | @opened source done block left op run respelled means isProductOp runFirst =>
      have same := eq_signToken known sign
      have nextFirst : (run ++ [token.isMinus]).head? ≠ some false := by
        cases run with
        | cons => exact runFirst
        | nil =>
          intro plus
          have noPlus := minusFirst (.operator op) (by simp) (isAmong_of_mem_products isProductOp)
          rw [List.nil_append, List.head?_cons, Option.some.injEq] at plus
          rw [same, plus] at noPlus
          exact noPlus rfl
      have whole := Spells.opened (run ++ [token.isMinus]) respelled means isProductOp nextFirst
      rw [runNegative_append] at whole
      simpa [← same] using whole
  | @closing _ _ text value _ computed =>
    cases spells with
    | opened run respelled means isProductOp runFirst =>
      have folded := Means.product run means isProductOp runFirst (.ofPrimary (.number text value)) computed
      simpa using Spells.done (respelled.append (.single folded))

theorem Runs.spells {source tokens : List Token} {sweep final : ProductSweep} (runs : sweep.Runs tokens final)
    (known : ∀ token ∈ tokens, token.IsKnown) (minusFirst : (source ++ tokens).IsChain MinusFirst)
    (spells : Spells bindings functions source sweep) : Spells bindings functions (source ++ tokens) final := by
  induction runs generalizing source with
  | nil => rwa [List.append_nil]
  | cons takes _ ih =>
    obtain ⟨knownToken, knownRest⟩ := List.forall_mem_cons.1 known
    have next := takes.spells knownToken
      (fun last atEnd => (List.isChain_append.1 minusFirst).2.2 last atEnd _ rfl) spells
    rw [List.append_cons] at minusFirst ⊢
    exact ih knownRest minusFirst next

theorem Takes.leaves {token : Token} {sweep next : ProductSweep} (takes : sweep.Takes token next)
    (leaves : ∀ token ∈ next.done, Phrase.primary.Leaves token) :
    (∀ token ∈ sweep.done, Phrase.primary.Leaves token) ∧ Phrase.primary.Leaves token := by
  cases takes with
  | keep =>
    obtain ⟨leavesBefore, leafToken⟩ := List.forall_mem_append.1 leaves
    exact ⟨leavesBefore, List.forall_mem_singleton.1 leafToken⟩
  | opening => exact ⟨List.forall_mem_append.2 ⟨leaves, List.forall_mem_singleton.2 trivial⟩, trivial⟩
  | sign sign =>
    obtain ⟨op, rfl⟩ := exists_operator_of_isOperatorIn sign
    exact ⟨leaves, trivial⟩
  | closing => exact ⟨(List.forall_mem_append.1 leaves).1, trivial⟩

theorem Runs.leaves {tokens : List Token} {sweep final : ProductSweep} (runs : sweep.Runs tokens final)
    (leaves : ∀ token ∈ final.done, Phrase.primary.Leaves token) :
    (∀ token ∈ sweep.done, Phrase.primary.Leaves token) ∧ ∀ token ∈ tokens, Phrase.primary.Leaves token := by
  induction runs with
  | nil => exact ⟨leaves, List.forall_mem_nil _⟩
  | cons takes _ ih =>
    obtain ⟨leavesNext, leavesRest⟩ := ih leaves
    obtain ⟨leavesDone, leaf⟩ := takes.leaves leavesNext
    exact ⟨leavesDone, List.forall_mem_cons.2 ⟨leaf, leavesRest⟩⟩

end ProductSweep

theorem respelled_of_sweepProducts {tokens swept : List Token} (known : ∀ token ∈ tokens, token.IsKnown)
    (minusFirst : tokens.IsChain MinusFirst) (result : (sweepProducts tokens).result = .ok swept) :
    Respelled (Means bindings functions .term) tokens swept := by
  have start : ProductSweep.Spells bindings functions [] ⟨[], none⟩ := .done .nil
  have chain : ([] ++ tokens).IsChain MinusFirst := minusFirst
  cases (ProductSweep.runs_of_sweepProducts result).spells known chain start with
  | done respelled => exact respelled

/-- A sweep over products that leaves numbers and operators began with numbers and operators. -/
theorem leaves_of_sweepProducts {tokens swept : List Token} (result : (sweepProducts tokens).result = .ok swept)
    (leaves : ∀ token ∈ swept, Phrase.primary.Leaves token) : ∀ token ∈ tokens, Phrase.primary.Leaves token :=
  ((ProductSweep.runs_of_sweepProducts result).leaves leaves).2

theorem foldlM_take_run_signs (done : List Token) (product : OpenProduct) (run : List Bool) :
    (run.map signToken).foldlM ProductSweep.take ⟨done, some product⟩ =
      (pure ⟨done, some { product with negative := run.foldl (· ^^ ·) product.negative }⟩ : Traced ProductSweep) := by
  induction run generalizing product with
  | nil => rfl
  | cons sign run ih =>
    have taken := @ProductSweep.take_sign done product _ (isSign_signToken sign)
    rw [List.map_cons, List.foldlM_cons, taken, pure_bind, ih]
    simp

/-- The sweep over products replaces each term by its value. -/
theorem foldlM_take_of_means_term {phrase : Phrase} {tokens : List Token} {value : Float} (done : List Token)
    (means : Means bindings functions phrase tokens value) (isTerm : phrase.level ≤ Phrase.term.level)
    (leaves : ∀ token ∈ tokens, Phrase.power.Leaves token) :
    ∃ text, (tokens = [.number text value] ∨ text = Double.text value) ∧
      (tokens.foldlM ProductSweep.take ⟨done, none⟩).result = .ok ⟨done ++ [.number text value], none⟩ := by
  induction means with
  | number text value => exact ⟨text, Or.inl rfl, rfl⟩
  | bound | group | call | negatedCall => exact (leaves _ List.mem_cons_self).elim
  | ofPrimary _ ih => exact ih (Nat.zero_le _) leaves
  | power => exact ((forall_mem_operation.1 leaves).2.1 rfl).elim
  | ofPower _ ih => exact ih (by decide) leaves
  | @product left right first second value op run _ isProductOp _ atRight computed ihLeft _ =>
    obtain ⟨leavesLeft, _, _, leavesRight⟩ := forall_mem_operation.1 leaves
    obtain ⟨leftText, _, resultLeft⟩ := ihLeft le_rfl leavesLeft
    obtain ⟨rightText, rfl⟩ := atRight.eq_number (show Phrase.power.level ≤ Phrase.power.level from le_rfl) (by decide)
      leavesRight
    have among := isAmong_of_mem_products isProductOp
    have opened : ((⟨done ++ [.number leftText first], none⟩ : ProductSweep).take (.operator op)).result =
        .ok ⟨done, some ⟨first, op, false⟩⟩ := by
      rw [ProductSweep.take_operator among, openProduct, leftOperand?_append]
      rfl
    have signs := congrArg Traced.result (foldlM_take_run_signs done ⟨first, op, false⟩ run)
    have closed : ((⟨done, some ⟨first, op, runNegative run⟩⟩ : ProductSweep).take (.number rightText second)).result =
        .ok ⟨done ++ [Token.ofValue value], none⟩ :=
      Traced.result_bind_eq_ok.2 ⟨value, Traced.result_ofFailing_eq_ok.2 computed, rfl⟩
    refine ⟨Double.text value, Or.inr rfl, ?_⟩
    simp only [List.foldlM_append, List.foldlM_cons]
    exact Traced.result_bind_eq_ok.2 ⟨_, resultLeft, Traced.result_bind_eq_ok.2 ⟨_, opened,
      Traced.result_bind_eq_ok.2 ⟨_, signs, Traced.result_bind_eq_ok.2 ⟨_, closed, rfl⟩⟩⟩⟩
  | firstTerm | nextTerm | ofSum => exact absurd isTerm (by decide)

theorem isProduct_of_leaves {token : Token} (known : token.IsKnown) (leaf : Phrase.term.Leaves token) :
    isProduct token = false := by
  cases product : isProduct token with
  | false => rfl
  | true =>
    obtain ⟨op, rfl⟩ := exists_operator_of_isOperatorIn product
    exact (leaf.2 (mem_products known product)).elim

theorem sweepProducts_of_respelled {tokens swept : List Token} (known : ∀ token ∈ tokens, token.IsKnown)
    (leaves : ∀ token ∈ tokens, Phrase.power.Leaves token)
    (respelled : Respelled (Compound bindings functions .term) tokens swept)
    (leavesSwept : ∀ token ∈ swept, Phrase.term.Leaves token) : (sweepProducts tokens).result = .ok swept := by
  have run : ∀ done, (tokens.foldlM ProductSweep.take ⟨done, none⟩).result = .ok ⟨done ++ swept, none⟩ := by
    induction respelled with
    | nil => intro done; rw [List.append_nil]; rfl
    | keep token _ ih =>
      intro done
      obtain ⟨knownToken, knownRest⟩ := List.forall_mem_cons.1 known
      obtain ⟨leafToken, leavesRest⟩ := List.forall_mem_cons.1 leavesSwept
      have later := ih knownRest (List.forall_mem_cons.1 leaves).2 leavesRest (done ++ [token])
      have noProduct := isProduct_of_leaves knownToken leafToken
      rw [List.foldlM_cons, ProductSweep.take_other noProduct, pure_bind, later, List.append_assoc,
        List.singleton_append]
    | @replace _ _ _ value compound _ ih =>
      intro done
      obtain ⟨leavesBlock, leavesRest⟩ := List.forall_mem_append.1 leaves
      obtain ⟨text, shape, result⟩ := foldlM_take_of_means_term done compound.1 le_rfl leavesBlock
      rcases shape with rfl | rfl
      · exact absurd compound.2 (by simp)
      · have later := ih (List.forall_mem_append.1 known).2 leavesRest (List.forall_mem_cons.1 leavesSwept).2
          (done ++ [Token.ofValue value])
        rw [List.append_assoc, List.singleton_append] at later
        rw [List.foldlM_append]
        exact Traced.result_bind_eq_ok.2 ⟨_, result, later⟩
  exact Traced.result_bind_eq_ok.2 ⟨_, run [], rfl⟩

end Reckoner.Evaluation
