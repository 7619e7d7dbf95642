import Mathlib
import Reckoner.Proofs.Evaluation.Dependence
import Reckoner.Proofs.Window.Keypad
import Reckoner.Proofs.Window.Operand

namespace Reckoner.Window

/-- Every place of the name of the last result in a text belongs to a longer whole word that is bound. -/
def AnswerInside (bound : String → Bool) (text : List Char) : Prop :=
  ∀ front back, text = front ++ (answerName ++ back) →
    ∃ before left right rest, front = before ++ left ∧ back = right ++ rest ∧ left ++ right ≠ [] ∧
      Token.WholeWord before (left ++ (answerName ++ right)) rest ∧
      bound (String.ofList (left ++ (answerName ++ right))) = true

/-- A start and the report after it come to what an evaluation comes to: its value is the last result, or its failure is
told in one message box. -/
inductive Yields (w : Window) (press : Action) : Except Stop Float → Prop
  | value {value : Float} (known : (w.after [press, .finish 0]).lastResult = some value)
      (quiet : (w.shown [press, .finish 0]).dialogs = []) : Yields w press (.ok value)
  | failure {cause : Failure} {equation : Option String} (kept : (w.after [press, .finish 0]).lastResult = w.lastResult)
      (told : (w.shown [press, .finish 0]).dialogs = [w.failureBox { cause.report with equation }]) :
      Yields w press (.error (.failure cause equation))

variable {w : Window} {press : Action} {question : Question} {places : Int}

/-- A start in an idle window and its report come to what the question that is asked evaluates to. -/
theorem yields_start (holds : Invariant w) (idle : w.busy = false)
    (whole : w.settings.value? "decimal_places" = some (.whole places)) (asks : press ∈ .click "⏎" :: starts)
    (asked : questionOf w.formula w.assignments w.lastResult = .ok question) (finite : question.bindings.AllFinite) :
    Yields w press
      (evaluate question.problem question.bindings (.elementary (w.settings.isOn "degrees"))).result := by
  obtain ⟨launches, reports⟩ := react_finish_of_ok holds idle asks asked
  have settles := evaluate_settles finite (.elementary (w.settings.isOn "degrees")) question.problem
  cases result : (evaluate question.problem question.bindings (.elementary (w.settings.isOn "degrees"))).result with
  | ok value =>
    obtain ⟨rendered, drawn⟩ := exists_render (settles.of_ok result).1 whole
    have found : Finding.of question w.settings = .answer _ := finding_of_ok (calculate_of_ok result drawn)
    rw [Message.of, found] at reports
    refine .value ?_ ?_
    · simp only [after, launches, calm, reports]
      rfl
    · simp only [shown, launches, calm, reports]
      rfl
  | error stop =>
    obtain ⟨cause, rfl, -⟩ := settles.of_error result
    have found : Finding.of question w.settings = .failure _ := finding_of_failure (calculate_of_error result)
    rw [Message.of, found] at reports
    refine .failure ?_ ?_
    · simp only [after, launches, calm, reports]
      rfl
    · simp only [shown, launches, calm, reports]
      rfl

/-- After a refused start there is nothing to report. -/
theorem after_refused {report : Report} (refused : LeavesBox w (w.react press) report) :
    (w.after [press, .finish 0]).lastResult = w.lastResult ∧
      (w.shown [press, .finish 0]).dialogs = [w.failureBox report] := by
  have nothing : (w.react press).window.react (.finish 0) = calm ((w.react press).window, .none) := by
    change calm ((w.react press).window.finish 0) = _
    rw [finish, refused.idle.2]
    rfl
  constructor
  · change ((w.react press).window.react (.finish 0)).window.lastResult = _
    rw [nothing]
    exact refused.lastResult_eq
  · change (w.react press).notices.dialogs ++ (((w.react press).window.react (.finish 0)).notices.dialogs ++ []) = _
    rw [nothing, refused.one_box]
    rfl

theorem area_congr {report other : Report} (same : report.code = other.code) : report.area = other.area := by
  unfold Report.area
  rw [same]

/-- The failures of evaluations do not belong to the part of the program that a missing last result belongs to. -/
theorem area_ne_of_closed {cause : Failure} (closed : ClosedFailure cause) {report missing : Report}
    (isCause : report.code = cause.report.code) (isMissing : missing.code = Failure.noLastResult.report.code) :
    report.area ≠ missing.area := by
  have areas : ∀ category ∈ closedCategories, (⟨.form, category.2, "", none⟩ : Report).area ≠ "UI Error" := by decide
  have here : report.area = (⟨.form, cause.category.2, "", none⟩ : Report).area := area_congr isCause
  have there : missing.area = "UI Error" := (area_congr isMissing).trans rfl
  rw [here, there]
  exact areas cause.category closed

/-- No evaluation fails as a formula does that needs a last result. -/
theorem not_yields_of_unknown {equation : Option String} {expression : String} {bindings : Bindings}
    {functions : FunctionTable} (finite : bindings.AllFinite) (unknown : w.lastResult = none)
    (refused : LeavesBox w (w.react press) { Failure.noLastResult.report with equation }) :
    ¬ Yields w press (evaluate expression bindings functions).result := by
  obtain ⟨kept, box⟩ := after_refused refused
  intro yields
  cases result : (evaluate expression bindings functions).result with
  | ok value =>
    rw [result] at yields
    obtain ⟨known⟩ := yields
    exact nomatch (unknown.symm.trans kept.symm).trans known
  | error stop =>
    obtain ⟨cause, rfl, listed⟩ := (evaluate_settles finite functions expression).of_error result
    rw [result] at yields
    cases yields with
    | failure _ told =>
      have titles := congrArg Dialog.title (List.cons.inj (told.symm.trans box)).1
      exact @area_ne_of_closed cause listed { cause.report with equation := some expression }
        { Failure.noLastResult.report with equation } rfl rfl titles

theorem infix_append_cons {name text rest : List Char} {mark : Char} (other : mark ∉ name)
    (within : name <:+: text ++ mark :: rest) : name <:+: text ∨ name <:+: rest := by
  induction text with
  | nil =>
    rcases List.infix_cons_iff.1 within with starts | later
    · have empty := List.prefix_nil.1 ((@prefix_append_of_not_mem name [] rest mark other).1 starts)
      exact Or.inl (empty ▸ List.nil_infix)
    · exact Or.inr later
  | cons c text ih =>
    rcases List.infix_cons_iff.1 within with starts | later
    · exact Or.inl ((@prefix_append_of_not_mem name (c :: text) rest mark other).1 starts).isInfix
    · exact (ih later).imp (·.trans (List.suffix_cons c text).isInfix) id

/-- Every text consists of pieces around the places of the name of the last result. -/
theorem exists_pieces (text : List Char) :
    ∃ piece rest, text = List.intercalate answerName (piece :: rest) ∧
      ∀ part ∈ piece :: rest, ¬ answerName <:+: part := by
  induction size : text.length using Nat.strong_induction_on generalizing text with
  | _ size ih =>
    subst size
    cases text with
    | nil =>
      refine ⟨[], [], rfl, List.forall_mem_singleton.2 fun within => ?_⟩
      exact nomatch List.eq_nil_of_infix_nil within
    | cons c text =>
      by_cases starts : answerName <+: c :: text
      · obtain ⟨behind, whole⟩ := starts
        have shorter : behind.length < (c :: text).length := by
          rw [← whole, List.length_append]
          change _ < 3 + _
          omega
        obtain ⟨piece, rest, rfl, apart⟩ := ih _ shorter behind rfl
        refine ⟨[], piece :: rest, ?_, List.forall_mem_cons.2 ⟨fun within => ?_, apart⟩⟩
        · rw [← whole, List.intercalate_cons_cons, List.nil_append]
        · exact nomatch List.eq_nil_of_infix_nil within
      · obtain ⟨piece, rest, rfl, apart⟩ := ih _ (Nat.lt_succ_self _) text rfl
        obtain ⟨first, later⟩ := List.forall_mem_cons.1 apart
        have joined : c :: List.intercalate answerName (piece :: rest) =
            List.intercalate answerName ((c :: piece) :: rest) := by
          cases rest with
          | nil => rw [List.intercalate_singleton, List.intercalate_singleton]
          | cons => rw [List.intercalate_cons_cons, List.intercalate_cons_cons, List.append_assoc, List.append_assoc,
              List.cons_append]
        refine ⟨c :: piece, rest, joined, List.forall_mem_cons.2 ⟨fun within => ?_, later⟩⟩
        rcases List.infix_cons_iff.1 within with begins | inside
        · refine starts (joined ▸ begins.trans ?_)
          cases rest with
          | nil => rw [List.intercalate_singleton]
          | cons => rw [List.intercalate_cons_cons, List.append_assoc]; exact List.prefix_append _ _
        · exact first inside

/-- The name of the last result does not stand in a text any more in which it is replaced. -/
theorem not_infix_intercalate {value : Float} (finite : value.isFinite = true) {pieces : List (List Char)}
    (apart : ∀ piece ∈ pieces, ¬ answerName <:+: piece) :
    ¬ answerName <:+: List.intercalate (operand value) pieces := by
  have noName : ¬ answerName <:+: (Double.chars value).map Char.toUpper := by
    intro within
    obtain ⟨c, member, same⟩ := List.mem_map.1 (within.subset (List.mem_cons_self : 'A' ∈ answerName))
    rcases Double.isDigit_or_mark_of_mem_chars finite member with digit | mark
    · rw [Double.toUpper_of_isDigit digit] at same
      exact absurd digit (by rw [same]; decide)
    · simp only [List.mem_cons, List.not_mem_nil, or_false] at mark
      rcases mark with rfl | rfl | rfl | rfl <;> exact absurd same (by decide)
  induction pieces with
  | nil => exact fun within => nomatch List.eq_nil_of_infix_nil within
  | cons piece rest ih =>
    obtain ⟨first, later⟩ := List.forall_mem_cons.1 apart
    cases rest with
    | nil => rwa [List.intercalate_singleton]
    | cons next rest =>
      rw [List.intercalate_cons_cons, operand, List.append_assoc, List.cons_append, List.append_assoc,
        List.singleton_append]
      intro within
      rcases infix_append_cons (by decide) within with inPiece | behind
      · exact first inPiece
      · rcases infix_append_cons (by decide) behind with inOperand | inRest
        · exact noName inOperand
        · exact ih later inRest

/-- In a text without the name of the last result, no binding of a name that contains it makes a difference. -/
theorem evaluate_congr_of_apart {text : List Char} (apart : ¬ answerName <:+: text) {bindings others : Bindings}
    (same : ∀ name : String, ¬ answerName <:+: name.toList → bindings.get? name = others.get? name)
    (functions : FunctionTable) :
    evaluate (String.ofList text) bindings functions = evaluate (String.ofList text) others functions := by
  refine evaluate_congr (fun name mentions => same name fun within => apart ?_) (fun _ _ => rfl) fun _ _ => rfl
  obtain ⟨before, rest, whole, -⟩ := mentions
  rw [String.toList_ofList] at whole
  rw [whole]
  exact within.trans ((List.prefix_append _ _).isInfix.trans (List.suffix_append _ _).isInfix)

/-- A name that contains the name of the last result is not read as a name in the window. Consider a reachable idle
window with assignments that can be read. A formula without the name of the last result comes to what it evaluates to,
whatever the last result is. Any other formula is refused without a last result, which no evaluation of it can come to;
and with one it comes to what the text evaluates to that has the written last result in all the places of its name, also
inside longer names, so that it makes no difference what names are bound to that contain it. -/
theorem answer_inside_names {file : FileContent} {new : Window} {notices : Notices} {before : List Action}
    {press : Action} {numbers : OrderedMap String Float} {places : Int} (opened : Window.new file = .ok (new, notices))
    (idle : (new.after before).busy = false)
    (whole : (new.after before).settings.value? "decimal_places" = some (.whole places))
    (reads : Assignment.readLine (new.after before).assignments = .ok numbers) (asks : press ∈ .click "⏎" :: starts) :
    let w := new.after before
    let text := normalize w.formula.toList
    let bindings := CommandLine.bindings numbers
    let functions := FunctionTable.elementary (w.settings.isOn "degrees")
    (¬ answerName <:+: text → Yields w press (evaluate (String.ofList text) bindings functions).result) ∧
    (answerName <:+: text → w.lastResult = none →
      LeavesBox w (w.react press) { Failure.noLastResult.report with equation := some (String.ofList text) } ∧
        ¬ Yields w press (evaluate (String.ofList text) bindings functions).result) ∧
    ∀ value, w.lastResult = some value → ∃ pieces,
      text = List.intercalate answerName pieces ∧ (∀ piece ∈ pieces, ¬ answerName <:+: piece) ∧
      let replaced := String.ofList (List.intercalate (operand value) pieces)
      Yields w press (evaluate replaced bindings functions).result ∧
        ∀ others : Bindings,
          (∀ name : String, ¬ answerName <:+: name.toList → bindings.get? name = others.get? name) →
          evaluate replaced bindings functions = evaluate replaced others functions := by
  intro w text bindings functions
  have holds : Invariant w := (invariant_new opened).after before
  have finite : bindings.AllFinite := Assignment.allFinite_of_readAll reads
  have yields (problem : String) (isProblem : problemOf w.formula w.lastResult = .ok problem) :
      Yields w press (evaluate problem bindings functions).result := by
    have asked : questionOf w.formula w.assignments w.lastResult = .ok ⟨problem, bindings⟩ := by
      rw [questionOf, isProblem, reads]
      rfl
    exact @yields_start w press ⟨problem, bindings⟩ places holds idle whole asks asked finite
  refine ⟨fun apart => ?_, fun named unknown => ?_, fun value known => ?_⟩
  · exact yields _ (problemOf_of_apart apart)
  · have refused : questionOf w.formula w.assignments w.lastResult =
        .error { Failure.noLastResult.report with equation := some (String.ofList text) } := by
      rw [questionOf, problemOf_eq_error.2 ⟨mentionsAnswer_iff.2 named, unknown, rfl⟩]
      rfl
    have leaves := leavesBox_of_refused holds idle (.free asks) refused
    exact ⟨leaves, not_yields_of_unknown finite unknown leaves⟩
  · obtain ⟨piece, rest, split, apart⟩ := exists_pieces text
    refine ⟨piece :: rest, split, apart, yields _ ?_, fun others same => ?_⟩
    · rw [known]
      exact problemOf_intercalate split apart
    · exact evaluate_congr_of_apart (not_infix_intercalate (proper_of_lastResult opened known).1 apart) same functions

/-- A report does not touch the settings. -/
theorem settings_after_finish (w : Window) (actions : List Action) (place : Nat) :
    (w.after (actions ++ [.finish place])).settings = (w.after actions).settings := by
  rw [after_append]
  change ((w.after actions).finish place).1.settings = _
  unfold finish
  split
  · rfl
  · unfold receive
    split <;> rfl

/-- A bound name that ends in the name of the last result, which is known: its value does not count. -/
theorem answer_inside_bound_name :
    let w := (fresh Settings.defaults none).after
      [.enter ["2"], .keyDown "Enter", .assign "xAns=5", .enter ["xAns"], .finish 0]
    let bindings := CommandLine.bindings (.ofList [("xAns", 5.0)])
    w.lastResult = some 2.0 ∧ Yields w (.click "⏎") (evaluate "x(2.0)" bindings (.elementary false)).result ∧
      evaluate "x(2.0)" bindings (.elementary false) = evaluate "x(2.0)" .empty (.elementary false) := by
  intro w bindings
  have known : w.lastResult = some 2.0 := by decide +kernel
  have settings : w.settings = Settings.defaults :=
    settings_after_finish _ [.enter ["2"], .keyDown "Enter", .assign "xAns=5", .enter ["xAns"]] 0
  have reads : Assignment.readLine w.assignments = .ok (.ofList [("xAns", 5.0)]) :=
    Assignment.readLine_of_entries (by decide +kernel)
  have whole : w.settings.value? "decimal_places" = some (.whole 10) := by
    rw [settings]
    rfl
  have degrees : w.settings.isOn "degrees" = false := by
    rw [settings]
    rfl
  obtain ⟨-, -, replaced⟩ := answer_inside_names new_of_missing (by decide +kernel : w.busy = false) whole reads
    (List.mem_cons_self : Action.click "⏎" ∈ _)
  obtain ⟨pieces, split, apart, yields, unused⟩ := replaced 2.0 known
  have written : String.ofList (List.intercalate (operand 2.0) pieces) = "x(2.0)" := by
    rw [← replaceAnswer_intercalate (operand 2.0) apart, ← split]
    decide +kernel
  rw [written] at yields unused
  change Yields w _ (evaluate _ bindings (.elementary (w.settings.isOn "degrees"))).result at yields
  change ∀ others : Bindings, _ → evaluate _ bindings (.elementary (w.settings.isOn "degrees")) =
    evaluate _ others (.elementary (w.settings.isOn "degrees")) at unused
  rw [degrees] at yields unused
  refine ⟨known, yields, unused _ fun name apart => ?_⟩
  have other : (name == "xAns") = false := by
    rw [beq_eq_false_iff_ne]
    rintro rfl
    exact apart (by decide)
  change List.lookup name [("xAns", Value.real 5.0)] = none
  rw [List.lookup_cons, other]
  rfl

/-- A bound name that ends in the name of the last result, which is not known: the formula is refused, although it has a
value. -/
theorem bound_name_refused :
    let w := (fresh Settings.defaults none).after [.click "x", .click "Ans", .assign "xAns=2"]
    let bindings := CommandLine.bindings (.ofList [("xAns", 2.0)])
    Window.new none = .ok (fresh Settings.defaults none, ⟨[], Settings.readLog (some .missing)⟩) ∧ w.busy = false ∧
      w.settings.value? "decimal_places" = some (.whole 10) ∧ w.formula = "xAns" ∧
      Assignment.readLine w.assignments = .ok (.ofList [("xAns", 2.0)]) ∧
      AnswerInside bindings.contains (normalize w.formula.toList) ∧
      (evaluate "xAns" bindings (.elementary (w.settings.isOn "degrees"))).result = .ok 2.0 ∧
      (w.shown [.click "⏎", .finish 0]).dialogs.map Dialog.text = ["Error 4003: No Value in ANS"] ∧
      ¬ Yields w (.click "⏎") (evaluate "xAns" bindings (.elementary (w.settings.isOn "degrees"))).result := by
  intro w bindings
  have evaluated : (evaluate "xAns" bindings (.elementary (w.settings.isOn "degrees"))).result.mapError (fun _ => ()) =
      .ok 2.0 := by decide +kernel
  have value := mapError_eq_ok.1 evaluated
  refine ⟨new_of_missing, by decide +kernel, rfl, by decide +kernel,
    Assignment.readLine_of_entries (by decide +kernel), ?_, value, by decide +kernel, ?_⟩
  · have text : normalize w.formula.toList = ['x', 'A', 'n', 's'] := by decide +kernel
    rw [text]
    intro front back split
    obtain ⟨rfl, rfl⟩ : front = ['x'] ∧ back = [] := by
      have length := congrArg List.length split
      simp only [answerName, List.length_append, List.length_cons, List.length_nil] at length
      rcases front with _ | ⟨c, _ | ⟨d, front⟩⟩
      · exact absurd (List.cons.inj split).1 (by decide)
      · obtain ⟨rfl, -⟩ := List.cons.inj split
        simp only [List.length_cons, List.length_nil] at length
        exact ⟨rfl, List.eq_nil_of_length_eq_zero (by omega)⟩
      · simp only [List.length_cons] at length
        omega
    exact ⟨[], ['x'], [], [], rfl, rfl, List.cons_ne_nil _ _,
      ⟨⟨'x', rfl, rfl⟩, List.all_eq_true.1 rfl, nofun, nofun⟩, rfl⟩
  · rw [value]
    rintro ⟨known⟩
    exact absurd known (by decide +kernel)

end Reckoner.Window
