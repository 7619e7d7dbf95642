import Mathlib
import Reckoner.Proofs.Evaluation.Calls
import Reckoner.Proofs.Evaluation.Reduction

namespace Reckoner

/-- Bindings of variables to finite doubles. -/
def Bindings.AllFinite (bindings : Bindings) : Prop :=
  ∀ name value, bindings.get? name = some value → ∃ x : Float, value = .real x ∧ x.isFinite = true

theorem Bindings.AllFinite.single (name : String) {x : Float} (finite : x.isFinite = true) :
    Bindings.AllFinite (.ofList [(name, .real x)]) := by
  intro other value found
  obtain ⟨_, _, split, _⟩ := List.lookup_eq_some_iff.1 found
  have member : (other, value) ∈ (OrderedMap.ofList [(name, Value.real x)]).entries :=
    split ▸ List.mem_append_right _ List.mem_cons_self
  cases List.mem_singleton.1 member
  exact ⟨x, rfl, finite⟩

namespace Evaluation

variable {bindings : Bindings} {functions : FunctionTable} {room : Nat}

/-- A token with its value in place of a bound whole word. -/
def replaceName (bindings : Bindings) : Token → Token
  | .name name false =>
    match bindings.get? name with
    | some (.real value) => .ofValue value
    | _ => .name name false
  | token => token

/-- Replacing keeps a token, or puts the number that a name is bound to in its place. -/
theorem replaceName_cases (token : Token) : replaceName bindings token = token ∨
    ∃ name value, token = .name name false ∧ bindings.get? name = some (.real value) ∧
      replaceName bindings token = .ofValue value := by
  cases token with
  | name name attached =>
    cases attached with
    | true => exact Or.inl rfl
    | false =>
      rcases found : bindings.get? name with _ | value
      · exact Or.inl (by simp [replaceName, found])
      · cases value with
        | real x => exact Or.inr ⟨name, x, rfl, found, by simp [replaceName, found]⟩
        | _ => exact Or.inl (by simp [replaceName, found])
  | _ => exact Or.inl rfl

/-- A token stays as it is, or it is a bound whole word whose value takes its place. -/
theorem substituteToken_cases (token : Token) : substituteToken room bindings token = .ok token ∨
    ∃ name value, token = .name name false ∧ bindings.get? name = some value ∧
      substituteToken room bindings token = (bindingValue room name value).map Token.ofValue := by
  cases token with
  | name name attached =>
    cases attached with
    | true => exact Or.inl rfl
    | false =>
      cases found : bindings.get? name with
      | none => exact Or.inl (by simp [substituteToken, found])
      | some value => exact Or.inr ⟨name, value, rfl, found, by simp [substituteToken, found]⟩
  | _ => exact Or.inl rfl

/-- A variable has a value exactly if it is bound to a finite double, however much room there is. -/
theorem bindingValue_eq_ok {name : String} {value : Value} {number : Float} :
    bindingValue room name value = .ok number ↔ value.toDouble = .ok number ∧ number.isFinite = true := by
  unfold bindingValue
  split
  · rename_i double isDouble
    rw [isDouble]
    split_ifs with finite
    · constructor
      · rintro ⟨⟩
        exact ⟨rfl, finite⟩
      · rintro ⟨⟨⟩, _⟩
        rfl
    · refine ⟨nofun, ?_⟩
      rintro ⟨⟨⟩, isFinite⟩
      exact absurd isFinite finite
  · rename_i unreadable
    rw [unreadable]
    exact ⟨nofun, nofun⟩
  · rename_i outOfRange
    rw [outOfRange]
    exact ⟨nofun, nofun⟩

theorem substituteToken_of_ok {token replaced : Token}
    (substituted : substituteToken room bindings token = .ok replaced)
    (other : Nat) : substituteToken other bindings token = .ok replaced := by
  unfold substituteToken at substituted ⊢
  split at substituted
  · split at substituted
    · rename_i value _
      cases converts : bindingValue room _ value with
      | ok number =>
        rw [bindingValue_eq_ok.2 (bindingValue_eq_ok.1 converts)]
        rwa [converts] at substituted
      | error stop =>
        rw [converts] at substituted
        exact nomatch substituted
    · exact substituted
  · exact substituted

theorem substitute_of_ok {tokens replaced : List Token} (substituted : substitute room bindings tokens = .ok replaced)
    (other : Nat) : substitute other bindings tokens = .ok replaced := by
  induction tokens generalizing replaced with
  | nil => exact substituted
  | cons token rest ih =>
    obtain ⟨first, isFirst, later⟩ := bind_eq_ok.1 substituted
    obtain ⟨behind, isBehind, same⟩ := bind_eq_ok.1 later
    exact bind_eq_ok.2 ⟨first, substituteToken_of_ok isFirst other, bind_eq_ok.2 ⟨behind, ih isBehind, same⟩⟩

theorem substituteToken_eq (finite : bindings.AllFinite) (token : Token) :
    substituteToken room bindings token = .ok (replaceName bindings token) := by
  cases token with
  | name name attached =>
    cases attached with
    | true => rfl
    | false =>
      rcases found : bindings.get? name with _ | value
      · simp [substituteToken, replaceName, found]
      · obtain ⟨x, rfl, isFinite⟩ := finite name value found
        simp [substituteToken, replaceName, found, bindingValue, Value.toDouble, isFinite, Except.map]
  | _ => rfl

theorem substitute_eq (finite : bindings.AllFinite) (tokens : List Token) :
    substitute room bindings tokens = .ok (tokens.map (replaceName bindings)) := by
  induction tokens with
  | nil => rfl
  | cons token rest ih =>
    rw [substitute, substituteToken_eq finite, ih]
    rfl

theorem respelled_replaceName (tokens : List Token) :
    Respelled (Means bindings functions .primary) tokens (tokens.map (replaceName bindings)) := by
  induction tokens with
  | nil => exact .nil
  | cons token rest ih =>
    rcases @replaceName_cases bindings token with kept | ⟨name, value, rfl, found, replaced⟩
    · rw [List.map_cons, kept]
      exact .keep token ih
    · rw [List.map_cons, replaced, ← List.singleton_append]
      exact .replace (.bound found) ih

@[simp] theorem map_replaceName_signs (run : List Bool) :
    (run.map signToken).map (replaceName bindings) = run.map signToken := by
  rw [List.map_map]
  rfl

theorem isFlat_signs (run : List Bool) : ∀ token ∈ run.map signToken, token.IsFlat := by
  intro token member
  obtain ⟨sign, _, rfl⟩ := List.mem_map.1 member
  trivial

/-- With its variables replaced, a phrase without parentheses means the same and has no names. -/
theorem means_map_replaceName {phrase : Phrase} {tokens : List Token} {value : Float}
    (means : Means bindings functions phrase tokens value) (noGroup : ∀ token ∈ tokens, token.isOpen = false) :
    Means bindings functions phrase (tokens.map (replaceName bindings)) value ∧
      ∀ token ∈ tokens.map (replaceName bindings), token.IsFlat := by
  induction means with
  | number text value => exact ⟨.number text value, List.forall_mem_singleton.2 trivial⟩
  | @bound name value binding =>
    have replaced : replaceName bindings (.name name false) = .ofValue value := by simp [replaceName, binding]
    rw [List.map_cons, replaced]
    exact ⟨.number _ value, List.forall_mem_singleton.2 trivial⟩
  | group => exact nomatch noGroup _ List.mem_cons_self
  | call _ applied ih =>
    obtain ⟨means, flat⟩ := ih (List.forall_mem_cons.1 noGroup).2
    exact ⟨.call means applied, List.forall_mem_cons.2 ⟨trivial, flat⟩⟩
  | negatedCall _ applied ih =>
    obtain ⟨means, flat⟩ := ih (List.forall_mem_cons.1 (List.forall_mem_cons.1 noGroup).2).2
    exact ⟨.negatedCall means applied, List.forall_mem_cons.2 ⟨trivial, List.forall_mem_cons.2 ⟨trivial, flat⟩⟩⟩
  | ofPrimary _ ih =>
    obtain ⟨means, flat⟩ := ih noGroup
    exact ⟨.ofPrimary means, flat⟩
  | ofPower _ ih =>
    obtain ⟨means, flat⟩ := ih noGroup
    exact ⟨.ofPower means, flat⟩
  | power run _ _ computed ihLeft ihRight =>
    obtain ⟨noGroupLeft, _, _, noGroupRight⟩ := forall_mem_operation.1 noGroup
    obtain ⟨meansLeft, flatLeft⟩ := ihLeft noGroupLeft
    obtain ⟨meansRight, flatRight⟩ := ihRight noGroupRight
    rw [List.map_append, List.map_cons, List.map_append, map_replaceName_signs]
    exact ⟨.power run meansLeft meansRight computed,
      forall_mem_operation.2 ⟨flatLeft, trivial, isFlat_signs run, flatRight⟩⟩
  | product run _ isProduct minusFirst _ computed ihLeft ihRight =>
    obtain ⟨noGroupLeft, _, _, noGroupRight⟩ := forall_mem_operation.1 noGroup
    obtain ⟨meansLeft, flatLeft⟩ := ihLeft noGroupLeft
    obtain ⟨meansRight, flatRight⟩ := ihRight noGroupRight
    rw [List.map_append, List.map_cons, List.map_append, map_replaceName_signs]
    exact ⟨.product run meansLeft isProduct minusFirst meansRight computed,
      forall_mem_operation.2 ⟨flatLeft, trivial, isFlat_signs run, flatRight⟩⟩
  | firstTerm run _ ih =>
    obtain ⟨means, flat⟩ := ih (List.forall_mem_append.1 noGroup).2
    rw [List.map_append, map_replaceName_signs]
    exact ⟨.firstTerm run means, List.forall_mem_append.2 ⟨isFlat_signs run, flat⟩⟩
  | @nextTerm _ _ _ _ run _ signed _ ihSum ihTerm =>
    obtain ⟨noGroupSum, noGroupRest⟩ := List.forall_mem_append.1 noGroup
    obtain ⟨meansSum, flatSum⟩ := ihSum noGroupSum
    obtain ⟨meansTerm, flatTerm⟩ := ihTerm (List.forall_mem_append.1 noGroupRest).2
    rw [List.map_append, List.map_append, map_replaceName_signs]
    exact ⟨.nextTerm meansSum signed meansTerm, List.forall_mem_append.2 ⟨flatSum, List.forall_mem_append.2
      ⟨isFlat_signs run, flatTerm⟩⟩⟩
  | ofSum _ finite ih =>
    obtain ⟨means, flat⟩ := ih noGroup
    exact ⟨.ofSum means finite, flat⟩

/-- Whether two neighbouring tokens are no invalid pair of operators. -/
def ValidPair : Token → Token → Prop
  | .operator left, .operator right => invalidPairs.contains (left.text ++ right.text) = false
  | _, _ => True

theorem checkNames_eq_ok {tokens : List Token} :
    checkNames tokens = .ok () ↔ ∀ name attached, .name name attached ∉ tokens := by
  induction tokens with
  | nil => simp [checkNames]
  | cons token rest ih =>
    cases token with
    | name name attached => exact iff_of_false nofun fun none => none name attached List.mem_cons_self
    | _ => simp [checkNames, ih]

theorem checkPairs_eq_ok {tokens : List Token} : checkPairs tokens = .ok () ↔ tokens.IsChain ValidPair := by
  induction tokens with
  | nil => simp [checkPairs]
  | cons token rest ih =>
    cases rest with
    | nil => cases token <;> simp [checkPairs]
    | cons next rest =>
      rw [List.isChain_cons_cons, ← ih]
      cases token with
      | operator left =>
        cases next with
        | operator right =>
          change _ ↔ invalidPairs.contains (left.text ++ right.text) = false ∧ _
          rw [checkPairs]
          generalize invalidPairs.contains (left.text ++ right.text) = invalid
          cases invalid <;> simp
        | _ => simp [checkPairs, ValidPair]
      | _ => simp [checkPairs, ValidPair]

theorem validate_eq_ok {tokens : List Token} :
    validate tokens = .ok () ↔ (∀ name attached, .name name attached ∉ tokens) ∧ tokens.IsChain ValidPair ∧
      checkStart tokens = .ok () ∧ checkEnd tokens = .ok () := by
  rw [← checkNames_eq_ok, ← checkPairs_eq_ok]
  unfold validate
  rcases checkNames tokens with cause | _
  · simp [bind, Except.bind]
  · rcases checkPairs tokens with cause | _
    · simp [bind, Except.bind]
    · rcases checkStart tokens with cause | _ <;> simp [bind, Except.bind]

theorem validPair_left {token : Token} (noOperator : ∀ op, token ≠ .operator op) (next : Token) :
    ValidPair token next := by
  cases token with
  | operator op => exact (noOperator op rfl).elim
  | _ => trivial

theorem validPair_right {next : Token} (noOperator : ∀ op, next ≠ .operator op) (token : Token) :
    ValidPair token next := by
  cases next with
  | operator op => exact (noOperator op rfl).elim
  | _ => cases token <;> trivial

theorem mem_signs_of_signToken {sign : Bool} {op : Operator} (same : signToken sign = .operator op) :
    op ∈ Operator.signs := by
  cases same
  cases sign <;> decide

theorem validPair_signs : ∀ left ∈ Operator.signs, ∀ right ∈ Operator.signs,
    invalidPairs.contains (left.text ++ right.text) = false := by
  decide

theorem validPair_power : ∀ op ∈ Operator.signs, invalidPairs.contains (Operator.power.text ++ op.text) = false := by
  decide

theorem validPair_product :
    ∀ op ∈ Operator.products, invalidPairs.contains (op.text ++ Operator.minus.text) = false := by
  decide

/-- Signs, and what they stand before, are no invalid pairs behind a token that allows their first sign. -/
theorem isChain_signs {tokens : List Token} {token : Token} (run : List Bool) (chain : tokens.IsChain ValidPair)
    (operand : ∀ op, tokens.head? ≠ some (.operator op))
    (allows : ∀ sign ∈ run.head?, ValidPair token (signToken sign)) :
    (token :: (run.map signToken ++ tokens)).IsChain ValidPair := by
  induction run generalizing token with
  | nil =>
    rw [List.map_nil, List.nil_append, List.isChain_cons]
    refine ⟨fun next first => validPair_right (fun op same => operand op ?_) token, chain⟩
    rw [← same]
    exact first
  | cons sign run ih =>
    rw [List.map_cons, List.cons_append, List.isChain_cons_cons]
    refine ⟨allows sign rfl, ih fun next _ => ?_⟩
    exact validPair_signs _ (mem_signs_of_signToken rfl) _ (mem_signs_of_signToken rfl)

/-- What holds of the tokens of a phrase: no invalid pair, no operator at the end, and an operator at the start only
as the first sign of a sum. -/
structure WellShaped (phrase : Phrase) (tokens : List Token) : Prop where
  chain : tokens.IsChain ValidPair
  last : ∀ op, tokens.getLast? ≠ some (.operator op)
  head : ∀ op, tokens.head? = some (.operator op) → Phrase.sum.level ≤ phrase.level ∧ op ∈ Operator.signs

theorem WellShaped.head_ne {phrase : Phrase} {tokens : List Token} (shaped : WellShaped phrase tokens)
    (below : phrase.level ≤ Phrase.term.level) (op : Operator) : tokens.head? ≠ some (.operator op) :=
  fun same => absurd ((shaped.head op same).1.trans below) (by decide)

/-- A phrase goes on with an operator, a run of signs and an operand. -/
theorem WellShaped.append {phrase operand : Phrase} {before tokens : List Token} (token : Token) (run : List Bool)
    (shaped : WellShaped phrase before) (nonempty : before ≠ []) (next : WellShaped operand tokens)
    (present : tokens ≠ []) (below : operand.level ≤ Phrase.term.level)
    (allows : ∀ sign ∈ run.head?, ValidPair token (signToken sign)) :
    WellShaped phrase (before ++ token :: (run.map signToken ++ tokens)) where
  chain := by
    refine List.isChain_append.2 ⟨shaped.chain, isChain_signs run next.chain (next.head_ne below) allows, ?_⟩
    exact fun other atEnd _ _ => validPair_left (fun op same => shaped.last op (same ▸ atEnd)) _
  last op := by
    rw [← List.cons_append, ← List.append_assoc, List.getLast?_append_of_ne_nil _ present]
    exact next.last op
  head op := by
    cases before with
    | nil => exact (nonempty rfl).elim
    | cons first before => exact shaped.head op

theorem shaped_of_means {phrase : Phrase} {tokens : List Token} {value : Float}
    (means : Means bindings functions phrase tokens value) (flat : ∀ token ∈ tokens, token.IsFlat) :
    WellShaped phrase tokens := by
  induction means with
  | number text value => exact ⟨.singleton _, nofun, nofun⟩
  | bound => exact ⟨.singleton _, nofun, nofun⟩
  | group => exact (flat _ List.mem_cons_self).elim
  | @call name tokens _ _ operand _ ih =>
    have shaped := ih (List.forall_mem_cons.1 flat).2
    refine ⟨isChain_signs [] shaped.chain (shaped.head_ne (by decide)) nofun, fun op => ?_, nofun⟩
    rw [← List.singleton_append, List.getLast?_append_of_ne_nil _ operand.ne_nil]
    exact shaped.last op
  | @negatedCall name tokens _ _ operand _ ih =>
    have shaped := ih (List.forall_mem_cons.1 (List.forall_mem_cons.1 flat).2).2
    refine ⟨isChain_signs [true] shaped.chain (shaped.head_ne (by decide)) fun _ _ => trivial, fun op => ?_, nofun⟩
    change ([Token.function name, Token.operator .minus] ++ tokens).getLast? ≠ _
    rw [List.getLast?_append_of_ne_nil _ operand.ne_nil]
    exact shaped.last op
  | ofPrimary _ ih =>
    have shaped := ih flat
    exact ⟨shaped.chain, shaped.last, fun op same => (shaped.head_ne (by decide) op same).elim⟩
  | ofPower _ ih =>
    have shaped := ih flat
    exact ⟨shaped.chain, shaped.last, fun op same => (shaped.head_ne (by decide) op same).elim⟩
  | power run atLeft atRight _ ihLeft ihRight =>
    obtain ⟨flatLeft, _, _, flatRight⟩ := forall_mem_operation.1 flat
    have shaped := (ihLeft flatLeft).append (.operator .power) run atLeft.ne_nil (ihRight flatRight) atRight.ne_nil
      (by decide) fun sign _ => validPair_power _ (mem_signs_of_signToken rfl)
    exact ⟨shaped.chain, shaped.last, fun op same => (shaped.head_ne (by decide) op same).elim⟩
  | @product _ _ _ _ _ op run atLeft isProduct minusFirst atRight _ ihLeft ihRight =>
    obtain ⟨flatLeft, _, _, flatRight⟩ := forall_mem_operation.1 flat
    refine (ihLeft flatLeft).append (.operator op) run atLeft.ne_nil (ihRight flatRight) atRight.ne_nil
      (by decide) fun sign first => ?_
    cases sign with
    | true => exact validPair_product op isProduct
    | false => exact (minusFirst first).elim
  | @firstTerm tokens _ run term ih =>
    have shaped := ih (List.forall_mem_append.1 flat).2
    cases run with
    | nil => exact ⟨shaped.chain, shaped.last, fun op same => (shaped.head_ne (by decide) op same).elim⟩
    | cons sign run =>
      refine ⟨isChain_signs run shaped.chain (shaped.head_ne (by decide)) fun _ _ =>
        validPair_signs _ (mem_signs_of_signToken rfl) _ (mem_signs_of_signToken rfl), fun op => ?_, fun op same => ?_⟩
      · rw [List.getLast?_append_of_ne_nil _ term.ne_nil]
        exact shaped.last op
      · exact ⟨le_rfl, mem_signs_of_signToken (Option.some.inj same)⟩
  | @nextTerm before tokens _ _ run sum signed term ihSum ihTerm =>
    obtain ⟨flatSum, flatRest⟩ := List.forall_mem_append.1 flat
    have shapedTerm := ihTerm (List.forall_mem_append.1 flatRest).2
    obtain ⟨sign, run, rfl⟩ := List.exists_cons_of_ne_nil signed
    exact (ihSum flatSum).append (signToken sign) run sum.ne_nil shapedTerm term.ne_nil (by decide) fun next _ =>
      validPair_signs _ (mem_signs_of_signToken rfl) _ (mem_signs_of_signToken rfl)
  | ofSum _ _ ih =>
    have shaped := ih flat
    exact ⟨shaped.chain, shaped.last, fun op same => ⟨by decide, (shaped.head op same).2⟩⟩

/-- A phrase whose variables are replaced passes the checks on its form. -/
theorem validate_of_means {tokens : List Token} {value : Float}
    (means : Means bindings functions .expression tokens value) (flat : ∀ token ∈ tokens, token.IsFlat) :
    validate tokens = .ok () := by
  have shaped := shaped_of_means means flat
  refine validate_eq_ok.2 ⟨fun name attached member => flat _ member, shaped.chain, ?_, ?_⟩
  · cases tokens with
    | nil => rfl
    | cons token rest =>
      cases token with
      | operator op =>
        have noProduct : ∀ op ∈ Operator.signs, op.isAmong Operator.products = false := by decide
        simp [checkStart, Token.isOperatorIn, noProduct op (shaped.head op rfl).2]
      | _ => rfl
  · unfold checkEnd
    cases atEnd : tokens.getLast? with
    | none => rfl
    | some token =>
      cases token with
      | operator op => exact (shaped.last op atEnd).elim
      | _ => rfl

theorem minusFirst_of_validPair {token next : Token} (known : token.IsKnown) (valid : ValidPair token next) :
    MinusFirst token next := by
  rintro product rfl
  obtain ⟨op, rfl⟩ := exists_operator_of_isOperatorIn product
  have invalid : ∀ op ∈ Operator.products, invalidPairs.contains (op.text ++ Operator.plus.text) = true := by decide
  have pair : invalidPairs.contains (op.text ++ Operator.plus.text) = false := valid
  rw [invalid op (mem_products known product)] at pair
  exact Bool.noConfusion pair

/-- Values in place of parts of a list make no new neighbours of operators. -/
theorem isChain_of_respelled {part : List Token → Float → Prop} {tokens swept : List Token}
    (respelled : Respelled part tokens swept) (chain : tokens.IsChain MinusFirst) : swept.IsChain MinusFirst := by
  induction respelled with
  | nil => exact .nil
  | keep token rest ih =>
    refine List.isChain_cons.2 ⟨fun next first => ?_, ih chain.tail⟩
    cases rest with
    | nil => exact nomatch first
    | keep other rest =>
      cases first
      exact (List.isChain_cons_cons.1 chain).1
    | replace =>
      cases first
      exact fun _ => nofun
  | replace _ _ ih =>
    exact List.isChain_cons.2 ⟨fun _ _ => nofun, ih chain.right_of_append⟩

theorem eq_minus {op : Operator} (known : (Token.operator op).IsKnown) (minus : op.isAmong [.minus] = true) :
    op = .minus := by
  cases op with
  | unknown symbol other => simp [Token.IsKnown, Operator.all] at known
  | minus => rfl
  | _ => exact Bool.noConfusion minus

theorem means_of_closeCalls {waiting : List OpenCall} {text : String} {value : Float} {token : Token}
    {tokens : List Token} (negated : ∀ call ∈ waiting, ∀ op ∈ call.sign, op = .minus)
    (means : Means bindings functions .primary tokens value)
    (closed : (closeCalls functions waiting text value).result = .ok token) :
    (waiting = [] ∧ token = .number text value) ∨ ∃ result, token = .ofValue result ∧
      Means bindings functions .primary (OpenCall.flush waiting ++ tokens) result := by
  induction waiting generalizing text value tokens with
  | nil =>
    cases closed
    exact Or.inl ⟨rfl, rfl⟩
  | cons call outer ih =>
    obtain ⟨result, called, closed⟩ := Traced.result_bind_eq_ok.1 closed
    obtain ⟨applied, isApplied, rfl⟩ := Traced.result_bind_note_eq_ok.1 called
    have applied := Traced.result_ofFailing_eq_ok.1 isApplied
    have meansCall : Means bindings functions .primary (call.tokens ++ tokens) result := by
      obtain ⟨name, _ | op, minus⟩ := call
      · exact .call means applied
      · obtain rfl := negated _ List.mem_cons_self op rfl
        exact .negatedCall means applied
    rcases ih (fun call member => negated call (List.mem_cons_of_mem _ member)) meansCall closed with
      ⟨rfl, rfl⟩ | ⟨final, rfl, meansAll⟩
    · exact Or.inr ⟨result, rfl, meansCall⟩
    · refine Or.inr ⟨final, rfl, ?_⟩
      rw [OpenCall.flush, List.append_assoc]
      exact meansAll

/-- The sweep over calls replaces primaries by their values. -/
theorem respelled_of_sweepCalls {waiting : List OpenCall} {tokens swept : List Token}
    (known : ∀ token ∈ tokens, token.IsKnown) (negated : ∀ call ∈ waiting, ∀ op ∈ call.sign, op = .minus)
    (result : (sweepCalls functions waiting tokens).result = .ok swept) :
    Respelled (Means bindings functions .primary) (OpenCall.flush waiting ++ tokens) swept := by
  have blocked : ∀ {waiting token rest swept}, (∀ {swept}, (sweepCalls functions [] rest).result = .ok swept →
      Respelled (Means bindings functions .primary) rest swept) →
      ((sweepCalls functions [] rest >>= fun swept =>
        (return OpenCall.flush waiting ++ token :: swept : Traced _)).result = .ok swept) →
      Respelled (Means bindings functions .primary) (OpenCall.flush waiting ++ token :: rest) swept := by
    intro waiting token rest swept later result
    obtain ⟨left, resultRest, same⟩ := Traced.result_bind_eq_ok.1 result
    cases same
    exact (Respelled.refl _).append (.keep token (later resultRest))
  fun_induction sweepCalls functions waiting tokens generalizing swept with
  | case1 waiting =>
    cases result
    rw [List.append_nil]
    exact .refl _
  | case2 waiting text value rest ih =>
    have knownRest : ∀ token ∈ rest, token.IsKnown := fun other member => known other (List.mem_cons_of_mem _ member)
    obtain ⟨token, closed, result⟩ := Traced.result_bind_eq_ok.1 result
    obtain ⟨left, resultRest, same⟩ := Traced.result_bind_eq_ok.1 result
    cases same
    have respelledRest := ih knownRest (List.forall_mem_nil _) resultRest
    rcases means_of_closeCalls negated (.number text value) closed with ⟨rfl, rfl⟩ | ⟨final, rfl, means⟩
    · exact .keep _ respelledRest
    · rw [← List.singleton_append, ← List.append_assoc]
      exact .replace means respelledRest
  | case3 waiting name rest ih =>
    have knownRest : ∀ token ∈ rest, token.IsKnown := fun other member => known other (List.mem_cons_of_mem _ member)
    have respelled := ih knownRest (List.forall_mem_cons.2 ⟨fun op absent => (by cases absent), negated⟩) result
    simpa [OpenCall.flush, OpenCall.tokens] using respelled
  | case4 name minus outer op rest isMinus ih =>
    have knownRest : ∀ token ∈ rest, token.IsKnown := fun other member => known other (List.mem_cons_of_mem _ member)
    have same := eq_minus (known _ List.mem_cons_self) isMinus
    have respelled :=
      ih knownRest (List.forall_mem_cons.2 ⟨fun other at_sign => (Option.some.inj at_sign).symm.trans same,
      fun call member => negated call (List.mem_cons_of_mem _ member)⟩) result
    simpa [OpenCall.flush, OpenCall.tokens] using respelled
  | case5 name minus outer op rest noMinus ih =>
    have knownRest : ∀ token ∈ rest, token.IsKnown := fun other member => known other (List.mem_cons_of_mem _ member)
    exact blocked (fun resultRest => ih knownRest (List.forall_mem_nil _) resultRest) result
  | case6 waiting token rest _ _ _ ih =>
    have knownRest : ∀ token ∈ rest, token.IsKnown := fun other member => known other (List.mem_cons_of_mem _ member)
    exact blocked (fun resultRest => ih knownRest (List.forall_mem_nil _) resultRest) result

/-- The sweep over calls takes a primary like its value. -/
theorem sweepCalls_of_means {phrase : Phrase} {tokens : List Token} {value : Float} (waiting : List OpenCall)
    (rest : List Token) (means : Means bindings functions phrase tokens value) (isPrimary : phrase = .primary)
    (flat : ∀ token ∈ tokens, token.IsFlat) :
    ∃ text, (tokens = [.number text value] ∨ text = Double.text value) ∧
      (sweepCalls functions waiting (tokens ++ rest)).result =
        (sweepCalls functions waiting (.number text value :: rest)).result := by
  have applied : ∀ {waiting : List OpenCall} {call : OpenCall} {text argument value},
      functions.apply call.name (call.argument argument) = .ok value →
      (sweepCalls functions (call :: waiting) (.number text argument :: rest)).result =
        (sweepCalls functions waiting (.number (Double.text value) value :: rest)).result := by
    intro waiting call text argument value isValue
    have called : (callValue functions call.name (call.argument argument)).result = .ok value :=
      Traced.result_bind_eq_ok.2 ⟨value, Traced.result_ofFailing_eq_ok.2 isValue, rfl⟩
    rw [sweepCalls, closeCalls, bind_assoc, Traced.result_bind_of_ok called, sweepCalls]
  induction means generalizing waiting with
  | number text value => exact ⟨text, Or.inl rfl, rfl⟩
  | bound | group => exact (flat _ List.mem_cons_self).elim
  | @call name tokens argument value _ isValue ih =>
    obtain ⟨text, _, same⟩ := ih (⟨name, none, fun op absent => by cases absent⟩ :: waiting) rfl fun token member =>
      flat token (List.mem_cons_of_mem _ member)
    exact ⟨Double.text value, Or.inr rfl, same.trans (applied isValue)⟩
  | @negatedCall name tokens argument value _ isValue ih =>
    have minus : ∀ op ∈ some Operator.minus, op.isAmong [.minus] = true := fun op same => Option.some.inj same ▸ rfl
    obtain ⟨text, _, same⟩ := ih (⟨name, some .minus, minus⟩ :: waiting) rfl fun token member =>
      flat token (List.mem_cons_of_mem _ (List.mem_cons_of_mem _ member))
    exact ⟨Double.text value, Or.inr rfl, same.trans (applied isValue)⟩
  | _ => cases isPrimary

/-- The sweep over calls replaces each primary by its value. -/
theorem sweepCalls_of_respelled {tokens swept : List Token} (flat : ∀ token ∈ tokens, token.IsFlat)
    (respelled : Respelled (Compound bindings functions .primary) tokens swept)
    (leaves : ∀ token ∈ swept, Phrase.primary.Leaves token) : (sweepCalls functions [] tokens).result = .ok swept := by
  induction respelled with
  | nil => rfl
  | keep token _ ih =>
    have later := ih (fun other member => flat other (List.mem_cons_of_mem _ member))
      fun other member => leaves other (List.mem_cons_of_mem _ member)
    cases token with
    | number text value => exact Traced.result_bind_eq_ok.2 ⟨_, rfl, Traced.result_bind_eq_ok.2 ⟨_, later, rfl⟩⟩
    | operator op => exact Traced.result_bind_eq_ok.2 ⟨_, later, rfl⟩
    | _ => exact (leaves _ List.mem_cons_self).elim
  | @replace block rest _ value compound _ ih =>
    have later := ih (fun other member => flat other (List.mem_append_right _ member))
      fun other member => leaves other (List.mem_cons_of_mem _ member)
    obtain ⟨text, shape, same⟩ := sweepCalls_of_means [] rest compound.1 rfl fun other member =>
      flat other (List.mem_append_left _ member)
    rcases shape with rfl | rfl
    · exact absurd compound.2 (by simp)
    · rw [same]
      exact Traced.result_bind_eq_ok.2 ⟨_, rfl, Traced.result_bind_eq_ok.2 ⟨_, later, rfl⟩⟩

/-- The stages of the evaluation of a list without parentheses. -/
theorem evaluateFlat_eq_ok {tokens : List Token} {value : Float} :
    (evaluateFlat room bindings functions tokens).result = .ok value ↔ ∃ replaced called reduced,
      substitute room bindings tokens = .ok replaced ∧ validate replaced = .ok () ∧
        (applyFunctions functions replaced).result = .ok called ∧ (reducePrecedence called).result = .ok reduced ∧
        sumTerms reduced = .ok value ∧ value.isFinite = true := by
  unfold evaluateFlat
  simp only [Traced.result_bind_eq_ok, Traced.result_ofExcept, Traced.result_ofFailing_eq_ok, Traced.result_note]
  constructor
  · rintro ⟨replaced, substituted, _, valid, called, applied, reduced, isReduced, _, _, total, summed, final⟩
    split at final
    · rename_i isFinite
      cases final
      exact ⟨replaced, called, reduced, substituted, valid, applied, isReduced, summed, isFinite⟩
    · exact nomatch final
  · rintro ⟨replaced, called, reduced, substituted, valid, applied, isReduced, summed, isFinite⟩
    refine ⟨replaced, substituted, (), valid, called, applied, reduced, isReduced, (), trivial, value, summed, ?_⟩
    rw [if_pos isFinite]
    rfl

/-- A list that has a value has it with any room. -/
theorem evaluateFlat_of_ok {tokens : List Token} {value : Float}
    (evaluated : (evaluateFlat room bindings functions tokens).result = .ok value) (other : Nat) :
    (evaluateFlat other bindings functions tokens).result = .ok value := by
  obtain ⟨replaced, called, reduced, substituted, sound⟩ := evaluateFlat_eq_ok.1 evaluated
  exact evaluateFlat_eq_ok.2 ⟨replaced, called, reduced, substitute_of_ok substituted other, sound⟩

/-- The stages as sweeps, where the variables are bound to finite doubles. -/
theorem evaluateFlat_sweeps {tokens : List Token} {value : Float} (finite : bindings.AllFinite) :
    (evaluateFlat room bindings functions tokens).result = .ok value ↔
      validate (tokens.map (replaceName bindings)) = .ok () ∧ ∃ called powers products,
        (sweepCalls functions [] (tokens.map (replaceName bindings))).result = .ok called ∧
        (∀ token ∈ called, token.isFunction = false) ∧
        (rounds powerRound (called.countP isPower) called).result = .ok powers ∧
        (rounds productRound (powers.countP isProduct) powers).result = .ok products ∧
        sumTerms (foldSigns products) = .ok value ∧ value.isFinite = true := by
  simp only [evaluateFlat_eq_ok, applyFunctions_eq_ok, reducePrecedence_eq_ok, rounds_callRound]
  constructor
  · rintro ⟨replaced, called, _, substituted, valid, isCalled, ⟨powers, products, isPowers, isProducts, rfl⟩, total⟩
    cases (substitute_eq finite tokens).symm.trans substituted
    exact ⟨valid, called, powers, products, isCalled.1, isCalled.2, isPowers, isProducts, total⟩
  · rintro ⟨valid, called, powers, products, isCalled, complete, isPowers, isProducts, total⟩
    exact ⟨_, called, _, substitute_eq finite tokens, valid, ⟨isCalled, complete⟩,
      ⟨powers, products, isPowers, isProducts, rfl⟩, total⟩

theorem known_map_replaceName {tokens : List Token} (known : ∀ token ∈ tokens, token.IsKnown) :
    ∀ token ∈ tokens.map (replaceName bindings), token.IsKnown :=
  respelled_known known (@respelled_replaceName bindings .empty tokens)

theorem isChain_minusFirst {tokens : List Token} (known : ∀ token ∈ tokens, token.IsKnown)
    (chain : tokens.IsChain ValidPair) : tokens.IsChain MinusFirst :=
  List.IsChain.imp_of_mem_imp (fun token _ member _ => minusFirst_of_validPair (known token member)) chain

/-- A list that evaluates to a value has it as its meaning. -/
theorem means_of_evaluateFlat {tokens : List Token} {value : Float} (finite : bindings.AllFinite)
    (known : ∀ token ∈ tokens, token.IsKnown)
    (result : (evaluateFlat room bindings functions tokens).result = .ok value) :
    Means bindings functions .expression tokens value := by
  obtain ⟨valid, called, powers, products, isCalled, complete, isPowers, isProducts, summed, isFinite⟩ :=
    (evaluateFlat_sweeps finite).1 result
  have knownReplaced := @known_map_replaceName bindings tokens known
  have respelledCalls : Respelled (Means bindings functions .primary) _ called :=
    respelled_of_sweepCalls knownReplaced (List.forall_mem_nil _) isCalled
  have knownCalled := respelled_known knownReplaced respelledCalls
  rw [rounds_powerRound knownCalled] at isPowers
  have respelledPowers : Respelled (Means bindings functions .power) called powers :=
    respelled_of_sweepPowers knownCalled isPowers
  have knownPowers := respelled_known knownCalled respelledPowers
  rw [rounds_productRound knownPowers] at isProducts
  have minusFirst := isChain_minusFirst knownReplaced (validate_eq_ok.1 valid).2.1
  have respelledProducts : Respelled (Means bindings functions .term) powers products :=
    respelled_of_sweepProducts knownPowers
      (isChain_of_respelled respelledPowers (isChain_of_respelled respelledCalls minusFirst)) isProducts
  have knownProducts := respelled_known knownPowers respelledProducts
  obtain ⟨meansSum, leavesProducts⟩ := @means_of_sumTerms bindings functions _ _ knownProducts summed
  have leavesPowers : ∀ token ∈ powers, Phrase.power.Leaves token := by
    intro token member
    have leaf := leaves_of_sweepProducts isProducts (fun other member => (leavesProducts other member).primary) token
      member
    have noPower := sweepPowers_clean isPowers token member
    cases token with
    | operator op =>
      rintro rfl
      exact nomatch noPower
    | number text value => trivial
    | _ => exact leaf.elim
  have meansProducts : Means bindings functions .sum powers value :=
    meansSum.spell_out le_rfl (Or.inr leavesProducts) respelledProducts
  have meansPowers : Means bindings functions .sum called value :=
    meansProducts.spell_out (by decide) (Or.inr leavesPowers) respelledPowers
  have meansCalls : Means bindings functions .sum _ value :=
    meansPowers.spell_out (by decide) (Or.inl rfl) respelledCalls
  have meansAll : Means bindings functions .sum tokens value :=
    meansCalls.spell_out (by decide) (Or.inl rfl) (respelled_replaceName tokens)
  exact .ofSum meansAll isFinite

/-- A list without parentheses evaluates to what it means. -/
theorem evaluateFlat_of_means {tokens : List Token} {value : Float} (finite : bindings.AllFinite)
    (known : ∀ token ∈ tokens, token.IsKnown) (noGroup : ∀ token ∈ tokens, token.isOpen = false)
    (means : Means bindings functions .expression tokens value) :
    (evaluateFlat room bindings functions tokens).result = .ok value := by
  have knownReplaced := @known_map_replaceName bindings tokens known
  obtain ⟨meansReplaced, flat⟩ := means_map_replaceName means noGroup
  obtain ⟨called, respelledCalls, meansCalled, leavesCalled⟩ :=
    meansReplaced.replace_operands (show Phrase.primary.level ≤ _ by decide) flat
  have isCalled := sweepCalls_of_respelled flat respelledCalls leavesCalled
  have knownCalled := respelled_known knownReplaced respelledCalls
  have flatCalled : ∀ token ∈ called, token.IsFlat := fun token member => (leavesCalled token member).flat
  obtain ⟨powers, respelledPowers, meansPowers, leavesPowers⟩ :=
    meansCalled.replace_operands (show Phrase.power.level ≤ _ by decide) flatCalled
  have isPowers := sweepPowers_of_respelled knownCalled leavesCalled respelledPowers leavesPowers
  have knownPowers := respelled_known knownCalled respelledPowers
  have flatPowers : ∀ token ∈ powers, token.IsFlat := fun token member => (leavesPowers token member).flat
  obtain ⟨products, respelledProducts, meansProducts, leavesProducts⟩ :=
    meansPowers.replace_operands (show Phrase.term.level ≤ _ from le_rfl) flatPowers
  have isProducts := sweepProducts_of_respelled knownPowers leavesPowers respelledProducts leavesProducts
  rw [← rounds_powerRound knownCalled] at isPowers
  rw [← rounds_productRound knownPowers] at isProducts
  have complete : ∀ token ∈ called, token.isFunction = false := by
    intro token member
    have leaf := leavesCalled token member
    cases token with
    | function name => exact leaf.elim
    | _ => rfl
  generalize isExpression : Phrase.expression = phrase at meansProducts
  cases meansProducts with
  | ofSum meansSum isFinite =>
    exact (evaluateFlat_sweeps finite).2 ⟨validate_of_means meansReplaced flat, called, powers, products, isCalled,
      complete, isPowers, isProducts, sumTerms_of_means meansSum leavesProducts, isFinite⟩
  | _ => exact nomatch isExpression

end Evaluation

end Reckoner
