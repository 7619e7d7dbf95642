import Mathlib
import Reckoner.Proofs.Evaluation.GroupOrder

namespace Reckoner

/-- A value that does not convert to a finite double. -/
def Value.Unusable (value : Value) : Prop :=
  ∀ number, value.toDouble = .ok number → number.isFinite = false

/-- How an unusable value of a variable stops a computation. A whole number beyond the doubles is a fault; so is a value
that the message cannot show, and every other value is named by a failure. -/
def Value.refusal (room : Nat) (name : String) (value : Value) : Stop :=
  if value.toDouble = .error .outOfRange then .fault (.outOfRange "int too large to convert to float")
  else Evaluation.refuseValue room name value

/-- An unusable value that a failure names: it is no whole number beyond the doubles, and the message can show it. -/
def Value.Shown (room : Nat) (value : Value) : Prop :=
  value.toDouble ≠ .error .outOfRange ∧ value.follow (fun _ => 1) room = .ok ()

/-- The fault that an unusable value is: it is a whole number beyond the doubles, or the message cannot show it. -/
inductive Value.Breaks (room : Nat) (value : Value) : Fault → Prop
  | outOfRange (beyond : value.toDouble = .error .outOfRange) :
      Breaks room value (.outOfRange "int too large to convert to float")
  | excess {excess : Excess} (inRange : value.toDouble ≠ .error .outOfRange)
      (shown : value.follow (fun _ => 1) room = .error excess) : Breaks room value excess.fault

namespace Evaluation

variable {bindings : Bindings} {functions : FunctionTable} {room : Nat}

/-- The first name of a list that is bound to an unusable value, and the value. -/
def FirstUnusable (bindings : Bindings) (tokens : List Token) (name : String) (value : Value) : Prop :=
  ∃ front back, tokens = front ++ .name name false :: back ∧ bindings.get? name = some value ∧ value.Unusable ∧
    ∀ other, .name other false ∈ front → ∀ bound, bindings.get? other = some bound → ¬ bound.Unusable

/-- The lists without parentheses that the evaluation of a list comes to, each with the room that there is for showing
values: what stands in a group once those behind its left parenthesis have their values, and what stands in the whole
list once all groups have theirs. -/
inductive Reached (bindings : Bindings) (functions : FunctionTable) (tokens : List Token) : Nat → List Token → Prop
  | group {done rest : List Group} {group : Group} {values : List (Group × Float)}
      (order : (Matching.of tokens).order = done ++ group :: rest)
      (evaluated : (done.foldlM (evaluateGroup bindings functions tokens) []).result = .ok values) :
      Reached bindings functions tokens groupRoom (standsBetween values tokens (group.start + 1) group.finish)
  | whole {values : List (Group × Float)} (balanced : (Matching.of tokens).Balanced)
      (evaluated : ((Matching.of tokens).order.foldlM (evaluateGroup bindings functions tokens) []).result =
        .ok values) :
      Reached bindings functions tokens wholeRoom (stands values 0 tokens)

/-- A stop as unusable values cause it. -/
def Refuses : Stop → Prop
  | .failure cause _ => cause.report.code = "7002"
  | .fault _ => True

theorem refuses_refusal (room : Nat) (name : String) (value : Value) : Refuses (value.refusal room name) := by
  unfold Value.refusal refuseValue
  split
  · trivial
  · split
    · exact rfl
    · trivial

theorem bindingValue_eq_error {name : String} {value : Value} {stop : Stop} :
    bindingValue room name value = .error stop ↔ value.Unusable ∧ stop = value.refusal room name := by
  unfold bindingValue Value.Unusable Value.refusal
  cases value.toDouble with
  | ok number =>
    cases finite : number.isFinite with
    | true =>
      refine ⟨fun stops => ?_, fun ⟨unusable, _⟩ => ?_⟩
      · simp [finite] at stops
      · exact absurd (unusable number rfl) (by simp [finite])
    | false =>
      simp only [finite, Bool.false_eq_true, if_false]
      refine ⟨fun stops => ⟨?_, (Except.error.inj stops).symm⟩, fun ⟨_, same⟩ => congrArg _ same.symm⟩
      rintro _ ⟨⟩
      exact finite
  | error cause =>
    cases cause <;>
      exact ⟨fun stops => ⟨nofun, (Except.error.inj stops).symm⟩, fun ⟨_, same⟩ => congrArg _ same.symm⟩

/-- A token stops the substitution if it is a name bound to an unusable value. -/
theorem substituteToken_eq_error {token : Token} {stop : Stop} :
    substituteToken room bindings token = .error stop ↔ ∃ name value, token = .name name false ∧
      bindings.get? name = some value ∧ value.Unusable ∧ stop = value.refusal room name := by
  constructor
  · intro stops
    rcases substituteToken_cases token with kept | ⟨name, value, isName, found, replaced⟩
    · cases kept.symm.trans stops
    · rw [replaced] at stops
      cases isNumber : bindingValue room name value with
      | ok number =>
        rw [isNumber] at stops
        cases stops
      | error cause =>
        rw [isNumber] at stops
        cases stops
        obtain ⟨unusable, same⟩ := bindingValue_eq_error.1 isNumber
        exact ⟨name, value, isName, found, unusable, same⟩
  · rintro ⟨name, value, rfl, found, unusable, same⟩
    have stops := bindingValue_eq_error.2 ⟨unusable, same⟩
    simp only [substituteToken, found, stops]
    rfl

theorem substituteToken_eq_ok {token : Token} : (∃ other, substituteToken room bindings token = .ok other) ↔
    ∀ name, token = .name name false → ∀ value, bindings.get? name = some value → ¬ value.Unusable := by
  cases isOther : substituteToken room bindings token with
  | ok other =>
    refine ⟨fun _ name same value found unusable => ?_, fun _ => ⟨other, rfl⟩⟩
    rw [substituteToken_eq_error.2 ⟨name, value, same, found, unusable, rfl⟩] at isOther
    cases isOther
  | error stop =>
    obtain ⟨name, value, same, found, unusable, _⟩ := substituteToken_eq_error.1 isOther
    refine ⟨?_, fun usable => absurd unusable (usable name same value found)⟩
    rintro ⟨_, isToken⟩
    cases isToken

/-- The first unusable value of a list stops the substitution of its variables, and nothing else does. -/
theorem substitute_eq_error {tokens : List Token} {stop : Stop} :
    substitute room bindings tokens = .error stop ↔
      ∃ name value, FirstUnusable bindings tokens name value ∧ stop = value.refusal room name := by
  induction tokens with
  | nil =>
    constructor
    · intro stops
      cases stops
    · rintro ⟨name, value, ⟨front, back, empty, _⟩, _⟩
      exact absurd empty.symm (List.append_ne_nil_of_right_ne_nil front (List.cons_ne_nil _ back))
  | cons token rest ih =>
    rw [substitute, bind_eq_error, substituteToken_eq_error]
    constructor
    · rintro (⟨name, value, rfl, found, unusable, same⟩ | ⟨first, isFirst, later⟩)
      · refine ⟨name, value, ⟨[], rest, rfl, found, unusable, fun other member => ?_⟩, same⟩
        cases member
      · rcases bind_eq_error.1 later with stops | ⟨_, _, ends⟩
        on_goal 2 => cases ends
        obtain ⟨name, value, ⟨front, back, rfl, found, unusable, usable⟩, same⟩ := ih.1 stops
        refine ⟨name, value, ⟨token :: front, back, rfl, found, unusable, fun other member => ?_⟩, same⟩
        rcases List.mem_cons.1 member with isToken | behind
        · exact substituteToken_eq_ok.1 ⟨first, isFirst⟩ other isToken.symm
        · exact usable other behind
    · rintro ⟨name, value, ⟨front, back, split, found, unusable, usable⟩, same⟩
      cases front with
      | nil =>
        obtain ⟨rfl, rfl⟩ := List.cons.inj split
        exact Or.inl ⟨name, value, rfl, found, unusable, same⟩
      | cons first front =>
        obtain ⟨rfl, rfl⟩ := List.cons.inj split
        obtain ⟨other, isOther⟩ := substituteToken_eq_ok.2 fun name same => usable name (same ▸ List.mem_cons_self)
        have stops := ih.2 ⟨name, value, ⟨front, back, rfl, found, unusable,
          fun other member => usable other (List.mem_cons_of_mem token member)⟩, same⟩
        exact Or.inr ⟨other, isOther, bind_eq_error.2 (Or.inl stops)⟩

theorem not_refuses_of_isFlat {cause : Failure} (flat : cause.IsFlat) : ¬ Refuses (.of cause) := by
  cases cause <;> first
    | exact flat.elim
    | simp [Refuses, Stop.of, Failure.report]

/-- What is refused in a list without parentheses is its first unusable value. -/
theorem evaluateFlat_refuses {tokens : List Token} {stop : Stop} (refuses : Refuses stop) :
    (evaluateFlat room bindings functions tokens).result = .error stop ↔
      substitute room bindings tokens = .error stop := by
  constructor
  · intro stops
    cases replaced : substitute room bindings tokens with
    | ok others =>
      have settles :
        Settles (fun stop => ¬ Refuses stop) Proper (evaluateFlat room bindings functions tokens).result := by
        refine evaluateFlat_settles_of (fun _ => not_refuses_of_isFlat) ?_
        rw [replaced]
        exact fun name _ => Or.inr (by simp [Refuses, Stop.of, Failure.report])
      exact absurd refuses (settles.of_error stops)
    | error other =>
      rw [evaluateFlat, Traced.result_bind, Traced.result_ofExcept, replaced] at stops
      exact congrArg _ (Except.error.inj stops)
  · intro stops
    rw [evaluateFlat, Traced.result_bind, Traced.result_ofExcept, stops]
    rfl

theorem evaluateGroup_eq_error {tokens : List Token} {values : List (Group × Float)} {group : Group} {stop : Stop} :
    (evaluateGroup bindings functions tokens values group).result = .error stop ↔
      (evaluateFlat groupRoom bindings functions (standsBetween values tokens (group.start + 1) group.finish)).result =
        .error stop := by
  rw [evaluateGroup, Traced.result_bind_eq_error]
  refine or_iff_left ?_
  rintro ⟨_, _, stopped⟩
  cases stopped

theorem resolveInOrder_refuses {tokens : List Token} {stop : Stop} (refuses : Refuses stop) :
    (resolveInOrder bindings functions tokens).result = .error stop ↔
      ((Matching.of tokens).order.foldlM (evaluateGroup bindings functions tokens) []).result = .error stop := by
  rw [resolveInOrder, Traced.result_bind_eq_error]
  refine or_iff_left ?_
  rintro ⟨values, _, stopped⟩
  split at stopped
  · cases stopped
    simp [Refuses, Stop.of, Failure.report] at refuses
  · split at stopped
    · cases stopped
      simp [Refuses, Stop.of, Failure.report] at refuses
    · cases stopped

theorem resolveInOrder_eq_ok {tokens swept : List Token} :
    (resolveInOrder bindings functions tokens).result = .ok swept ↔ (Matching.of tokens).Balanced ∧
      ∃ values, ((Matching.of tokens).order.foldlM (evaluateGroup bindings functions tokens) []).result =
        .ok values ∧ swept = stands values 0 tokens := by
  rw [resolveInOrder, Traced.result_bind_eq_ok]
  constructor
  · rintro ⟨values, evaluated, resolved⟩
    split at resolved
    · cases resolved
    · rename_i opens
      split at resolved
      · cases resolved
      · rename_i strays
        cases resolved
        exact ⟨⟨not_not.1 opens, not_not.1 strays⟩, values, evaluated, rfl⟩
  · rintro ⟨⟨opens, strays⟩, values, evaluated, rfl⟩
    refine ⟨values, evaluated, ?_⟩
    rw [if_neg (not_not.2 opens), if_neg (not_not.2 strays)]
    rfl

/-- What is refused in a list is refused in one of the lists without parentheses that its evaluation comes to. -/
theorem evaluateTokens_refuses {tokens : List Token} {stop : Stop} (refuses : Refuses stop) :
    (evaluateTokens bindings functions tokens).result = .error stop ↔
      ∃ room list, Reached bindings functions tokens room list ∧ substitute room bindings list = .error stop := by
  rw [evaluateTokens, resolveGroups_eq_resolveInOrder, Traced.result_bind_eq_error, resolveInOrder_refuses refuses,
    Traced.foldlM_eq_error]
  simp only [evaluateGroup_eq_error, evaluateFlat_refuses refuses, resolveInOrder_eq_ok]
  constructor
  · rintro (⟨done, group, rest, values, order, evaluated, stops⟩ | ⟨_, ⟨balanced, values, evaluated, rfl⟩, stops⟩)
    · exact ⟨_, _, .group order evaluated, stops⟩
    · exact ⟨_, _, .whole balanced evaluated, stops⟩
  · rintro ⟨room, list, ⟨order, evaluated⟩ | ⟨balanced, evaluated⟩, stops⟩
    · exact Or.inl ⟨_, _, _, _, order, evaluated, stops⟩
    · exact Or.inr ⟨_, ⟨balanced, _, evaluated, rfl⟩, stops⟩

end Evaluation

open Evaluation

variable {bindings : Bindings} {functions : FunctionTable} {room : Nat}

/-- Where the evaluation of an expression meets a name that is bound to an unusable value: in one of the lists that it
comes to, with no such name before it there. -/
def MeetsUnusable (bindings : Bindings) (functions : FunctionTable) (expression : String) (room : Nat) (name : String)
    (value : Value) : Prop :=
  ∃ tokens list, Token.scan bindings.contains functions.keys expression = .ok tokens ∧
    Reached bindings functions tokens room list ∧ FirstUnusable bindings list name value

theorem not_refuses_of_scanFailure {cause : Failure} (failure : Token.ScanFailure cause) : ¬ Refuses (.of cause) := by
  intro refuses
  have code : cause.category.2 = "7002" := refuses
  rcases failure with same | same | same <;> rw [same] at code <;> exact absurd code (by decide)

/-- An expression has no value if it cannot be scanned, or if the evaluation of its tokens stops. -/
theorem evaluate_eq_error {expression : String} {stop : Stop} :
    (evaluate expression bindings functions).result = .error stop ↔
      (∃ cause, Token.scan bindings.contains functions.keys expression = .error cause ∧
        stop = .failure cause (some expression)) ∨
      ∃ tokens stopped, Token.scan bindings.contains functions.keys expression = .ok tokens ∧
        (evaluateTokens bindings functions tokens).result = .error stopped ∧ stop = stopped.about expression := by
  rw [evaluate, Traced.result_mapStop, mapError_eq_error]
  simp only [Traced.result_bind_eq_error, Traced.result_bind_of_ok (Traced.result_note _), Traced.result_ofFailing,
    mapError_eq_error, mapError_eq_ok]
  constructor
  · rintro ⟨_, ⟨cause, scanned, rfl⟩ | ⟨tokens, scanned, stops⟩, rfl⟩
    · exact Or.inl ⟨cause, scanned, rfl⟩
    · exact Or.inr ⟨tokens, _, scanned, stops, rfl⟩
  · rintro (⟨cause, scanned, rfl⟩ | ⟨tokens, stopped, scanned, stops, rfl⟩)
    · exact ⟨_, Or.inl ⟨cause, scanned, rfl⟩, rfl⟩
    · exact ⟨stopped, Or.inr ⟨tokens, scanned, stops⟩, rfl⟩

theorem refuses_about {expression : String} {stop : Stop} : Refuses (stop.about expression) ↔ Refuses stop := by
  cases stop <;> exact Iff.rfl

/-- What an evaluation refuses is the unusable value that it meets. -/
theorem evaluate_refuses {expression : String} {stop : Stop} (refuses : Refuses stop) :
    (evaluate expression bindings functions).result = .error stop ↔
      ∃ room name value, MeetsUnusable bindings functions expression room name value ∧
        stop = (value.refusal room name).about expression := by
  rw [evaluate_eq_error]
  constructor
  · rintro (⟨cause, scanned, rfl⟩ | ⟨tokens, stopped, scanned, stops, rfl⟩)
    · exact absurd refuses (not_refuses_of_scanFailure ((Token.scanFrom_settles _ 0 0 none).of_error scanned))
    · obtain ⟨room, list, reached, stops⟩ := (evaluateTokens_refuses (refuses_about.1 refuses)).1 stops
      obtain ⟨name, value, first, rfl⟩ := substitute_eq_error.1 stops
      exact ⟨room, name, value, ⟨tokens, list, scanned, reached, first⟩, rfl⟩
  · rintro ⟨room, name, value, ⟨tokens, list, scanned, reached, first⟩, rfl⟩
    have stops : substitute room bindings list = .error (value.refusal room name) :=
      substitute_eq_error.2 ⟨name, value, first, rfl⟩
    have refused := (evaluateTokens_refuses (refuses_refusal room name value)).2 ⟨room, list, reached, stops⟩
    exact Or.inr ⟨tokens, _, scanned, refused, rfl⟩

theorem refusal_about {expression name : String} {value : Value} {cause : Failure} {equation : Option String} :
    (value.refusal room name).about expression = .failure cause equation ↔
      value.Shown room ∧ cause = .unusableBinding name value ∧ equation = some expression := by
  unfold Value.refusal refuseValue Value.Shown
  split_ifs with beyond
  · exact ⟨nofun, fun named => absurd beyond named.1.1⟩
  · cases shown : value.follow (fun _ => 1) room with
    | ok =>
      constructor
      · rintro ⟨⟩
        exact ⟨⟨beyond, rfl⟩, rfl, rfl⟩
      · rintro ⟨_, rfl, rfl⟩
        rfl
    | error excess => exact ⟨nofun, fun named => nomatch named.1.2⟩

theorem refusal_about_fault {expression name : String} {value : Value} {kind : Fault} :
    (value.refusal room name).about expression = .fault kind ↔ value.Breaks room kind := by
  unfold Value.refusal refuseValue
  constructor
  · intro same
    split at same
    · rename_i beyond
      cases same
      exact .outOfRange beyond
    · rename_i inRange
      split at same
      · exact nomatch same
      · rename_i excess shown
        cases same
        exact .excess inRange shown
  · rintro (beyond | ⟨inRange, shown⟩)
    · rw [if_pos beyond]
      rfl
    · rw [if_neg inRange, shown]
      rfl

theorem Value.Breaks.mem {value : Value} {kind : Fault} (breaks : value.Breaks room kind) :
    kind ∈ [.outOfRange "int too large to convert to float", Excess.digits.fault, Excess.depth.fault] := by
  rcases breaks with _ | @⟨excess, _, _⟩
  · exact List.mem_cons_self
  · cases excess <;> decide

/-- Every failure of an evaluation names the expression, and every fault is that of a value. -/
theorem evaluate_outcome (expression : String) :
    (∃ value : Float, (evaluate expression bindings functions).result = .ok value ∧ value.isFinite = true) ∨
      (∃ cause, (evaluate expression bindings functions).result = .error (.failure cause (some expression))) ∨
      ∃ kind ∈ [.outOfRange "int too large to convert to float", Excess.digits.fault, Excess.depth.fault],
        (evaluate expression bindings functions).result = .error (.fault kind) := by
  cases result : (evaluate expression bindings functions).result with
  | ok value => exact Or.inl ⟨value, rfl, (proper_of_evaluate result).1⟩
  | error stop =>
    right
    have named := result
    rw [evaluate, Traced.result_mapStop, mapError_eq_error] at named
    obtain ⟨stopped, _, rfl⟩ := named
    cases stopped with
    | failure cause equation => exact Or.inl ⟨cause, rfl⟩
    | fault kind =>
      obtain ⟨room, name, value, _, same⟩ := (@evaluate_refuses _ _ _ (.fault kind) trivial).1 result
      exact Or.inr ⟨kind, (refusal_about_fault.1 same.symm).mem, rfl⟩

/-- An evaluation comes to a finite number, to a failure that names the expression, or to one of three faults. It
complains about the value of a variable exactly if it meets an unusable one that the message can show, and it comes to a
fault exactly if it meets a whole number beyond the doubles or an unusable value that the message cannot show: in the
order in which groups are evaluated, before anything else goes wrong. -/
theorem evaluate_unusable (expression : String) (bindings : Bindings) (functions : FunctionTable) :
    ((∃ value : Float, (evaluate expression bindings functions).result = .ok value ∧ value.isFinite = true) ∨
      (∃ cause, (evaluate expression bindings functions).result = .error (.failure cause (some expression))) ∨
      ∃ kind ∈ [.outOfRange "int too large to convert to float", Excess.digits.fault, Excess.depth.fault],
        (evaluate expression bindings functions).result = .error (.fault kind)) ∧
    ((∃ cause equation, (evaluate expression bindings functions).result = .error (.failure cause equation) ∧
        cause.report.code = "7002") ↔
      ∃ room name value, MeetsUnusable bindings functions expression room name value ∧ value.Shown room) ∧
    (∀ kind, (evaluate expression bindings functions).result = .error (.fault kind) ↔
      ∃ room name value, MeetsUnusable bindings functions expression room name value ∧ value.Breaks room kind) ∧
    ∀ room name value, MeetsUnusable bindings functions expression room name value →
      (evaluate expression bindings functions).result = .error ((value.refusal room name).about expression) := by
  have meets (room : Nat) (name : String) (value : Value)
      (meets : MeetsUnusable bindings functions expression room name value) :
      (evaluate expression bindings functions).result = .error ((value.refusal room name).about expression) :=
    (evaluate_refuses (refuses_about.2 (refuses_refusal room name value))).2 ⟨room, name, value, meets, rfl⟩
  refine ⟨evaluate_outcome expression, ⟨?_, ?_⟩, fun kind => ⟨?_, ?_⟩, meets⟩
  · rintro ⟨cause, equation, stops, code⟩
    obtain ⟨room, name, value, found, same⟩ := (@evaluate_refuses _ _ _ (.failure cause equation) code).1 stops
    exact ⟨room, name, value, found, (refusal_about.1 same.symm).1⟩
  · rintro ⟨room, name, value, found, shown⟩
    refine ⟨.unusableBinding name value, some expression, ?_, rfl⟩
    rw [meets room name value found, refusal_about.2 ⟨shown, rfl, rfl⟩]
  · intro stops
    obtain ⟨room, name, value, found, same⟩ := (@evaluate_refuses _ _ _ (.fault kind) trivial).1 stops
    exact ⟨room, name, value, found, refusal_about_fault.1 same.symm⟩
  · rintro ⟨room, name, value, found, breaks⟩
    rw [meets room name value found, refusal_about_fault.2 breaks]

/-- A group is evaluated before what stands before it, and so the variable in it is complained about. -/
theorem evaluate_unusable_in_group :
    (evaluate "z*(x+y)" (.ofList [("x", .real 2.0), ("y", .null), ("z", .null)]) .empty).result =
      .error (.failure (.unusableBinding "y" .null) (some "z*(x+y)")) := by
  have usable : ∀ value, (OrderedMap.ofList [("x", Value.real 2.0), ("y", .null), ("z", .null)]).get? "x" = some value →
      ¬ value.Unusable := by
    rintro _ ⟨⟩ unusable
    exact absurd (unusable 2.0 rfl) (by decide)
  have order : (Matching.of [.name "z" false, .operator .times, .lparen "(", .name "x" false, .operator .plus,
      .name "y" false, .rparen ")"]).order = [] ++ [⟨2, 6⟩] :=
    Matching.order_eq (by decide) (by decide) (by decide)
  have first : FirstUnusable (.ofList [("x", .real 2.0), ("y", .null), ("z", .null)])
      [.name "x" false, .operator .plus, .name "y" false] "y" .null :=
    ⟨[.name "x" false, .operator .plus], [], rfl, rfl, nofun, fun other member => by
      obtain rfl : other = "x" := by simpa using member
      exact usable⟩
  exact (evaluate_unusable _ _ _).2.2.2 groupRoom "y" .null ⟨_, _, rfl, .group order rfl, first⟩

/-- A whole number beyond the doubles is not reported at all. -/
theorem evaluate_enormous :
    ¬ ((∃ value, (evaluate "x" (.ofList [("x", .whole (10 ^ 309))]) (.elementary false)).result = .ok value) ∨
      ∃ cause equation, (evaluate "x" (.ofList [("x", .whole (10 ^ 309))]) (.elementary false)).result =
        .error (.failure cause equation)) := by
  have tooLarge : (Value.whole (10 ^ 309)).toDouble = .error .outOfRange := by decide +kernel
  generalize Value.whole (10 ^ 309) = value at tooLarge ⊢
  have replaced : substitute wholeRoom (.ofList [("x", value)]) [.name "x" false] =
      .error (.fault (.outOfRange "int too large to convert to float")) := by
    refine substitute_eq_error.2 ⟨"x", value, ⟨[], [], rfl, rfl, fun number same => ?_, nofun⟩, ?_⟩
    · rw [tooLarge] at same
      cases same
    · exact (if_pos tooLarge).symm
  have stops : (evaluate "x" (.ofList [("x", value)]) (.elementary false)).result =
      .error (.fault (.outOfRange "int too large to convert to float")) := by
    have refused := (@evaluateFlat_refuses _ (.elementary false) _ _ (.fault _) trivial).2 replaced
    exact evaluate_eq_error.2 (Or.inr ⟨[.name "x" false], _, rfl, refused, rfl⟩)
  rw [stops]
  rintro (⟨_, same⟩ | ⟨_, _, same⟩) <;> cases same

end Reckoner
