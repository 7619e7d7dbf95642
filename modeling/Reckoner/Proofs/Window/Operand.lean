import Mathlib
import Reckoner.Proofs.Evaluation.Alphabet
import Reckoner.Proofs.Evaluation.Interchange
import Reckoner.Proofs.Window.LastResult

namespace Reckoner

namespace Token

variable {bound : String → Bool} {names : List String}

theorem scan_of_start {text : List Char} {tokens : List Token}
    (scanned : scanFrom bound names 0 0 none text = .ok tokens) :
    scan bound names (String.ofList text) = .ok tokens := by
  have noEquals : text.getLast? ≠ some '=' := fun last =>
    absurd (isLegible_of_scanFrom scanned (List.forall_mem_nil _) '=' (List.mem_of_getLast? last)) (by decide)
  rw [scan, String.toList_ofList, dropEquals_of_getLast?_ne noEquals, scanned]

/-- A text is scanned the same behind no word, wherever it stands. -/
theorem scan_of_scanFrom {text : List Char} {tokens : List Token} {position : Nat} {before : Option Char}
    (noWord : before.any isWordChar = false) (scanned : scanFrom bound names 0 position before text = .ok tokens) :
    scanFrom bound names 0 0 none text = .ok tokens := by
  have view := @scanFrom_mapError bound names text 0 0 position none before fun _ _ _ => noWord.symm
  rw [scanned] at view
  exact mapError_eq_ok.1 view

/-- Around a group a text is scanned as it is by itself, and the group to the tokens that its own text has. -/
theorem scanFrom_group {piece text behind : List Char} {inner tokens : List Token} {position : Nat}
    {before : Option Char} (scanned : scanFrom bound names 0 0 none text = .ok inner)
    (noWord : before.any isWordChar = false)
    (whole : scanFrom bound names 0 position before (piece ++ '(' :: (text ++ ')' :: behind)) = .ok tokens) :
    ∃ first others place, scan bound names (String.ofList piece) = .ok first ∧
      scanFrom bound names 0 place (some ')') behind = .ok others ∧
      tokens = first ++ .lparen "(" :: (inner ++ .rparen ")" :: others) := by
  rw [scanFrom_append stands_open _ _ _ _ _ (Nat.zero_le _)] at whole
  obtain ⟨first, scannedFirst, whole⟩ := bind_eq_ok.1 whole
  rw [scanFrom_append stands_close _ _ _ _ _ (Nat.zero_le _)] at whole
  obtain ⟨grouped, scannedGrouped, same⟩ := bind_eq_ok.1 whole
  cases same
  obtain ⟨group, scannedGroup, scannedRest⟩ := bind_eq_ok.1 scannedGrouped
  obtain ⟨others, scannedOthers, same⟩ := bind_eq_ok.1 scannedRest
  cases same
  cases (scanFrom_of_start scanned _ rfl).symm.trans scannedGroup
  exact ⟨first, others, _, scan_of_start (scan_of_scanFrom noWord scannedFirst), scannedOthers, rfl⟩

/-- A text that holds one group again and again is scanned piece by piece: the pieces between the groups as they are by
themselves, and the group to the same tokens everywhere. Only the last piece may end in an equals sign. -/
theorem scanFrom_intercalate {text : List Char} {inner : List Token}
    (scanned : scanFrom bound names 0 0 none text = .ok inner) {pieces : List (List Char)} {position : Nat}
    {before : Option Char} {tokens : List Token} (noWord : before.any isWordChar = false)
    (whole : scanFrom bound names 0 position before (dropEquals (List.intercalate ('(' :: (text ++ [')'])) pieces)) =
      .ok tokens) :
    ∃ lists, List.Forall₂ (fun piece tokens => scan bound names (String.ofList piece) = .ok tokens) pieces lists ∧
      tokens = List.intercalate (.lparen "(" :: (inner ++ [.rparen ")"])) lists := by
  induction pieces generalizing position before tokens with
  | nil =>
    cases whole
    exact ⟨[], .nil, rfl⟩
  | cons piece rest ih =>
    cases rest with
    | nil =>
      rw [List.intercalate_singleton] at whole
      have alone : scan bound names (String.ofList piece) = .ok tokens := by
        rw [scan, String.toList_ofList]
        exact scan_of_scanFrom noWord whole
      exact ⟨[tokens], .cons alone .nil, (List.intercalate_singleton ..).symm⟩
    | cons next rest =>
      have shape : List.intercalate ('(' :: (text ++ [')'])) (piece :: next :: rest) =
          piece ++ '(' :: (text ++ ')' :: List.intercalate ('(' :: (text ++ [')'])) (next :: rest)) := by
        rw [List.intercalate_cons_cons, List.append_assoc, List.cons_append, List.append_assoc, List.singleton_append]
      rw [shape, dropEquals_append (by decide), dropEquals_append (by decide)] at whole
      obtain ⟨first, others, _, scannedFirst, scannedOthers, rfl⟩ := scanFrom_group scanned noWord whole
      obtain ⟨lists, each, rfl⟩ := ih rfl scannedOthers
      refine ⟨first :: lists, .cons scannedFirst each, ?_⟩
      cases each with
      | cons _ _ => rw [List.intercalate_cons_cons, List.append_assoc, List.cons_append, List.append_assoc,
          List.singleton_append]

end Token

namespace Evaluation

variable {bindings : Bindings} {functions : FunctionTable}

/-- A group that stands again and again in a list is worth its value everywhere. -/
theorem sweepGroups_intercalate {inner : List Token} {value : Float}
    (evaluated : (evaluateTokens bindings functions inner).result = .ok value) (lists : List (List Token)) :
    (sweepGroups bindings functions (List.intercalate (.lparen "(" :: (inner ++ [.rparen ")"])) lists)).result =
      (sweepGroups bindings functions (List.intercalate [.ofValue value] lists)).result := by
  induction lists with
  | nil => rfl
  | cons first rest ih =>
    cases rest with
    | nil => rw [List.intercalate_singleton, List.intercalate_singleton]
    | cons next rest =>
      rw [List.intercalate_cons_cons, List.intercalate_cons_cons, List.append_assoc, List.append_assoc,
        List.cons_append, List.append_assoc, List.singleton_append, List.singleton_append]
      refine sweepGroups_congr first ((sweepGroups_group_eq_ofValue evaluated _).trans ?_)
      exact sweepGroups_congr [.ofValue value] ih

end Evaluation

open Evaluation

theorem result_evaluate_of_scan {expression : String} {bindings : Bindings} {functions : FunctionTable}
    {tokens : List Token} (scanned : Token.scan bindings.contains functions.keys expression = .ok tokens) :
    (evaluate expression bindings functions).result =
      (evaluateTokens bindings functions tokens).result.mapError (Stop.about expression) := by
  rw [evaluate, Traced.result_mapStop, scanned]
  rfl

namespace Window

/-- Replacing the name of the last result passes over what does not hold it, up to the next place that does. -/
theorem replaceAnswer_append_of_apart {replacement before rest : List Char} (apart : ¬ answerName <:+: before)
    (stop : rest = [] ∨ answerName <+: rest) :
    replaceAnswer replacement 0 (before ++ rest) = before ++ replaceAnswer replacement 0 rest := by
  induction before with
  | nil => rfl
  | cons c before ih =>
    obtain ⟨notHere, later⟩ := not_or.1 (mt List.infix_cons_iff.2 apart)
    have noName : answerName.isPrefixOf (c :: (before ++ rest)) = false := by
      refine Bool.eq_false_iff.2 fun starts => notHere ?_
      have starts := List.isPrefixOf_iff_prefix.1 starts
      rcases stop with rfl | ⟨others, rfl⟩
      · rwa [List.append_nil] at starts
      · -- The name goes on behind its first letter without that letter, so it ends before the name that follows.
        obtain ⟨same, goesOn⟩ := List.cons_prefix_cons.1 starts
        have within := (@prefix_append_of_not_mem _ before _ 'A' (by decide)).1 goesOn
        exact List.cons_prefix_cons.2 ⟨same, within⟩
    rw [List.cons_append, replaceAnswer, noName]
    exact congrArg (c :: ·) (ih later)

theorem replaceAnswer_of_apart {replacement text : List Char} (apart : ¬ answerName <:+: text) :
    replaceAnswer replacement 0 text = text := by
  have passed := @replaceAnswer_append_of_apart replacement text [] apart (Or.inl rfl)
  rwa [replaceAnswer.eq_1, List.append_nil] at passed

/-- The name of the last result is replaced wherever it stands. -/
theorem replaceAnswer_intercalate (replacement : List Char) {pieces : List (List Char)}
    (apart : ∀ piece ∈ pieces, ¬ answerName <:+: piece) :
    replaceAnswer replacement 0 (List.intercalate answerName pieces) = List.intercalate replacement pieces := by
  induction pieces with
  | nil => rfl
  | cons piece rest ih =>
    obtain ⟨first, later⟩ := List.forall_mem_cons.1 apart
    cases rest with
    | nil => rw [List.intercalate_singleton, List.intercalate_singleton, replaceAnswer_of_apart first]
    | cons next rest =>
      rw [List.intercalate_cons_cons, List.intercalate_cons_cons, List.append_assoc, List.append_assoc,
        replaceAnswer_append_of_apart first (Or.inr (List.prefix_append _ _)), ← ih later]
      rfl

theorem problemOf_intercalate {formula : String} {value : Float} {pieces : List (List Char)}
    (split : normalize formula.toList = List.intercalate answerName pieces)
    (apart : ∀ piece ∈ pieces, ¬ answerName <:+: piece) :
    problemOf formula (some value) = .ok (String.ofList (List.intercalate (operand value) pieces)) := by
  have replaced := replaceAnswer_intercalate (operand value) apart
  unfold problemOf
  dsimp only
  rw [split, ← replaced]
  cases named : mentionsAnswer (List.intercalate answerName pieces) with
  | true => rfl
  | false =>
    rw [replaceAnswer_of_apart (mt mentionsAnswer_iff.2 (Bool.eq_false_iff.1 named))]
    rfl

/-- The tokens of a written number: its size in capitals, behind a minus if it is negative. -/
def numeralTokens (value : Float) : List Token :=
  (if Double.isNegative value then [.operator .minus] else []) ++
    [.number (String.ofList ((Double.unsignedText Double.layout (Double.toDecimal value)).map Char.toUpper))
      (Double.ofMagnitude false (Double.magnitude value))]

/-- The tokens of the text that takes the place of the last result. -/
def operandTokens (value : Float) : List Token :=
  .lparen "(" :: (numeralTokens value ++ [.rparen ")"])

variable {bound : String → Bool} {names : List String} {bindings : Bindings} {functions : FunctionTable} {value : Float}

theorem scan_numeralTokens (finite : value.isFinite = true) :
    Token.scan bound names (Double.text value).toUpper = .ok (numeralTokens value) := by
  have denotes := Double.denotes_unsignedText Double.layout (Double.toDecimal value)
  have reads := Double.nearestDecimal_toDecimal finite
  have fits := (Double.isFinite_iff value).1 finite
  rw [← reads] at fits
  rw [toUpper_text finite, scan_numeral _ denotes fits, reads]
  rfl

theorem scanFrom_numeralTokens (finite : value.isFinite = true) :
    Token.scanFrom bound names 0 0 none ((Double.chars value).map Char.toUpper) = .ok (numeralTokens value) := by
  have numeric := numeric_signed (Double.isNegative value)
    (Double.denotes_unsignedText Double.layout (Double.toDecimal value)).1
  have shape : (Double.chars value).map Char.toUpper = _ :=
    String.ofList_inj.1 ((toUpper_ofList _).symm.trans (toUpper_text finite))
  have scanned := @scan_numeralTokens bound names value finite
  rwa [toUpper_text finite, Token.scan, String.toList_ofList, Token.dropEquals_of_numeric numeric, ← shape] at scanned

theorem evaluateTokens_numeralTokens (proper : Proper value) :
    (evaluateTokens bindings functions (numeralTokens value)).result = .ok value := by
  obtain ⟨tokens, scanned, evaluated⟩ := evaluate_eq_ok.1 (evaluate_text proper)
  rwa [← Except.ok.inj ((scan_numeralTokens proper.1).symm.trans scanned)] at evaluated

/-- The name of the last result in a formula stands for one operand. In an idle window whose assignments can be read, a
start asks about the formula with the written last result, between parentheses, in place of the name. Whatever the
pieces around the names are: if that text can be scanned, each piece is scanned as it is by itself, each name has
become a left parenthesis, a minus if the last result is negative, a number and a right parenthesis, and the text comes
to what the tokens come to that have one number, the last result, in each of these places. -/
theorem answer_is_one_operand {file : FileContent} {new : Window} {notices : Notices} {before : List Action}
    {press : Action} {numbers : OrderedMap String Float} {pieces : List (List Char)}
    (opened : Window.new file = .ok (new, notices)) (idle : (new.after before).busy = false)
    (known : (new.after before).lastResult = some value)
    (reads : Assignment.readLine (new.after before).assignments = .ok numbers)
    (split : normalize (new.after before).formula.toList = List.intercalate answerName pieces)
    (apart : ∀ piece ∈ pieces, ¬ answerName <:+: piece) (asks : press ∈ .click "⏎" :: starts) :
    let question : Question := ⟨String.ofList (List.intercalate (operand value) pieces), CommandLine.bindings numbers⟩
    (∃ job, ((new.after before).react press).window.running = [job] ∧ job.question = question) ∧
    ∀ functions tokens, Token.scan question.bindings.contains functions.keys question.problem = .ok tokens →
      ∃ lists,
        List.Forall₂ (fun piece list =>
          Token.scan question.bindings.contains functions.keys (String.ofList piece) = .ok list) pieces lists ∧
        tokens = List.intercalate (operandTokens value) lists ∧
        (evaluate question.problem question.bindings functions).result =
          (evaluateTokens question.bindings functions (List.intercalate [.ofValue value] lists)).result.mapError
            (Stop.about question.problem) := by
  intro question
  have holds : Invariant (new.after before) := (invariant_new opened).after before
  have proper := proper_of_lastResult opened known
  refine ⟨⟨⟨question, (new.after before).replaced.length⟩, ?_, rfl⟩, fun functions tokens scanned => ?_⟩
  · have asked : questionOf (new.after before).formula (new.after before).assignments (new.after before).lastResult =
        .ok question := by
      rw [questionOf, known, problemOf_intercalate split apart, reads]
      rfl
    rw [react_press asks (holds.enter_iff.2 idle), start_of_ok idle asked]
    exact holds.running_launch idle question
  · have whole := scanned
    rw [Token.scan, String.toList_ofList] at whole
    obtain ⟨lists, each, rfl⟩ := Token.scanFrom_intercalate (scanFrom_numeralTokens proper.1) rfl whole
    refine ⟨lists, each, rfl, ?_⟩
    rw [result_evaluate_of_scan scanned,
      result_evaluateTokens_congr (sweepGroups_intercalate (evaluateTokens_numeralTokens proper) lists)]

/-- The square of a small negative number, which is written with an exponent. -/
theorem answer_is_one_base :
    let w := (fresh Settings.defaults none).after [.enter ["-1E-5"], .keyDown "Enter", .finish 0, .enter ["Ans^2"]]
    w.busy = false ∧ w.lastResult = some (-1e-5) ∧
      (∃ job, (w.react (.click "⏎")).window.running = [job] ∧ job.question.problem = "(-1E-05)^2") ∧
      (evaluate "(-1E-05)^2" (CommandLine.bindings .empty) (.elementary false)).result =
        (evaluateTokens (CommandLine.bindings .empty) (.elementary false)
          [.ofValue (-1e-5), .operator .power, .number "2" 2.0]).result.mapError (Stop.about "(-1E-05)^2") := by
  intro w
  have idle : w.busy = false := by decide +kernel
  have known : w.lastResult = some (-1e-5) := by decide +kernel
  have reads : Assignment.readLine w.assignments = .ok .empty := by
    have none : w.assignments = "" := by decide +kernel
    rw [none]
    rfl
  have split : normalize w.formula.toList = List.intercalate answerName [[], ['^', '2']] := by decide +kernel
  have apart : ∀ piece ∈ [[], ['^', '2']], ¬ answerName <:+: piece := by decide
  obtain ⟨⟨job, running, asked⟩, worth⟩ := answer_is_one_operand new_of_missing idle known reads split apart
    (List.mem_cons_self : Action.click "⏎" ∈ _)
  have written : String.ofList (List.intercalate (operand (-1e-5)) [[], ['^', '2']]) = "(-1E-05)^2" := by decide +kernel
  rw [written] at asked worth
  have problem : job.question.problem = "(-1E-05)^2" := congrArg Question.problem asked
  have atW : (fresh Settings.defaults none).after _ = w := rfl
  rw [atW] at running
  have scans (text : String) (tokens : List Token)
      (reads : (Token.scan (CommandLine.bindings .empty).contains (FunctionTable.elementary false).keys text).mapError
        (fun _ => ()) = .ok tokens) := mapError_eq_ok.1 reads
  have whole := scans "(-1E-05)^2" [.lparen "(", .operator .minus, .number "1E-05" 1e-5, .rparen ")", .operator .power,
    .number "2" 2.0] (by decide +kernel)
  have square := scans (String.ofList ['^', '2']) [.operator .power, .number "2" 2.0] (by decide +kernel)
  obtain ⟨lists, each, _, value⟩ := worth (.elementary false) _ whole
  cases each with
  | cons first each =>
    cases each with
    | cons second each =>
      cases each
      cases first
      cases Except.ok.inj (square.symm.trans second)
      exact ⟨idle, known, ⟨job, running, problem⟩, value⟩

end Window

end Reckoner
