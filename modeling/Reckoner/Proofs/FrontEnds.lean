import Mathlib
import Reckoner.Proofs.Assignment
import Reckoner.Proofs.Double.Text
import Reckoner.Proofs.Rendering.Truthful
import Reckoner.Proofs.Window.Change

namespace Reckoner

theorem text_inj {x y : Float} (finite : x.isFinite = true) (same : Double.text x = Double.text y) : x = y :=
  Double.chars_inj finite (String.ofList_inj.1 same)

namespace Printed

theorem line_inj {first second : String} (same : line first = line second) : first = second :=
  (String.append_left_inj _).1 same

theorem after_empty (printed : Printed) : printed.after "" = printed := by
  rw [after, String.empty_append]

theorem success_inj {first second : String} (same : success first = success second) : first = second :=
  line_inj (congrArg out same)

theorem failed_inj {first second : String} (same : failed first = failed second) : first = second :=
  line_inj (congrArg err same)

end Printed

/-- A finite number can always be rendered with a whole number of places. -/
theorem exists_render {value : Float} {settings : Settings} {count : Int} (finite : value.isFinite = true)
    (whole : settings.value? "decimal_places" = some (.whole count)) :
    ∃ rendered, render value settings = .ok rendered := by
  have asked : settings.places = .ok (some (min count.toNat Settings.mostDecimalPlaces)) := by
    rw [Settings.places, whole]
    rfl
  have number := Double.not_isNaN_of_isFinite finite
  have bounded := Double.not_isInf_of_isFinite finite
  rw [render, asked]
  change ∃ rendered, (if settings.isOn "fractions" then renderFraction value
    else renderDecimal value (some (min count.toNat Settings.mostDecimalPlaces))) = .ok rendered
  split_ifs
  · simp only [renderFraction, number, bounded, Bool.false_eq_true, if_false]
    exact ⟨_, rfl⟩
  · simp only [renderDecimal, number, bounded, Bool.false_eq_true, if_false]
    split_ifs <;> exact ⟨_, rfl⟩

theorem calculate_of_ok {problem : String} {bindings : Bindings} {settings : Settings} {value : Float}
    {rendered : Rendered}
    (evaluated : (evaluate problem bindings (.elementary (settings.isOn "degrees"))).result = .ok value)
    (drawn : render value settings = .ok rendered) :
    calculate problem bindings settings = .ok ⟨rendered.line, value⟩ := by
  rw [calculate, evaluated]
  change ((render value settings).mapError Stop.fault >>= fun rendered => _) = _
  rw [drawn]
  rfl

theorem calculate_of_error {problem : String} {bindings : Bindings} {settings : Settings} {stop : Stop}
    (stopped : (evaluate problem bindings (.elementary (settings.isOn "degrees"))).result = .error stop) :
    calculate problem bindings settings = .error stop := by
  rw [calculate, stopped]
  rfl

theorem Window.finding_of_ok {problem : String} {bindings : Bindings} {settings : Settings} {answer : Answer}
    (found : calculate problem bindings settings = .ok answer) :
    Finding.of ⟨problem, bindings⟩ settings = .answer answer := by
  rw [Finding.of, found]

theorem Window.finding_of_failure {problem : String} {bindings : Bindings} {settings : Settings} {cause : Failure}
    {equation : Option String} (failed : calculate problem bindings settings = .error (.failure cause equation)) :
    Finding.of ⟨problem, bindings⟩ settings = .failure { cause.report with equation } := by
  rw [Finding.of, failed]

theorem Window.mentionsAnswer_iff {text : List Char} : mentionsAnswer text = true ↔ answerName <:+: text := by
  induction text with
  | nil => exact ⟨nofun, fun within => nomatch List.eq_nil_of_infix_nil within⟩
  | cons c rest ih =>
    rw [mentionsAnswer, Bool.or_eq_true, List.isPrefixOf_iff_prefix, ih, List.infix_cons_iff]

theorem normalize_ne_nil {text : List Char} (written : Text.allBlank text = false) : normalize text ≠ [] := by
  obtain ⟨c, member, shown⟩ := List.all_eq_false.1 written
  have kept : c ∈ text.filter fun c => !Text.isBlank c := List.mem_filter.2 ⟨member, by simpa using shown⟩
  exact fun empty => nomatch (List.map_eq_nil_iff.1 empty) ▸ kept

namespace CommandLine

variable {formula : String} {arguments : List String} {settings : Settings}

/-- What is printed, without a log, for the result of an evaluation. -/
def printing : Except Stop Float → Except Fault Printed
  | .ok value => .ok (.success (Double.text value))
  | .error (.fault kind) => .error kind
  | .error (.failure cause _) => .ok (.failed cause.report.describe)

/-- The command line prints the number, or the failure, that the formula comes to. -/
theorem run_of_written (written : Text.allBlank formula.toList = false) :
    run (formula :: arguments) settings false =
      printing (evaluateWith (String.ofList (normalize formula.toList)) arguments settings).result := by
  have nonempty : String.ofList (normalize formula.toList) ≠ "" :=
    fun empty => normalize_ne_nil written (String.ofList_inj.1 empty)
  unfold run
  dsimp only
  rw [if_neg nonempty]
  rcases (evaluateWith (String.ofList (normalize formula.toList)) arguments settings).result with
    (kind | ⟨cause, about⟩) | value <;>
  simp only [printing, Bool.false_eq_true, if_false, String.append_empty, Printed.after_empty]

theorem result_evaluateWith_of_ok {numbers : OrderedMap String Float}
    (reads : Assignment.readAll arguments = .ok numbers) :
    (evaluateWith formula arguments settings).result =
      (evaluate formula (bindings numbers) (.elementary (settings.isOn "degrees"))).result :=
  Traced.result_bind_of_ok (Traced.result_ofFailing_eq_ok.2 reads)

theorem result_evaluateWith_of_error {cause : Failure} (reads : Assignment.readAll arguments = .error cause) :
    (evaluateWith formula arguments settings).result = .error (.of cause) := by
  rw [evaluateWith, Traced.result_bind, Traced.result_ofFailing, reads]
  rfl

end CommandLine

/-- What the user does in a new window: enters a formula and assignments, starts the calculation, and lets it report. -/
def session (formula : String) (arguments : List String) (press : Action) : List Action :=
  [.enter [formula], .assign (";".intercalate arguments), press, .finish 0]

/-- What the command line prints is what the window knows: a number is its last result, and a failure is shown. -/
structure Agree (printed : Except Fault Printed) (w : Window) (notices : Notices) : Prop where
  value : ∀ value, printed = .ok (.success (Double.text value)) ↔ w.lastResult = some value
  failure : ∀ text, printed = .ok (.failed text) ↔ ∃ dialog ∈ notices.dialogs, dialog.text = text

namespace Agree

variable {w : Window} {notices : Notices}

theorem of_value {value : Float} (finite : value.isFinite = true) (known : w.lastResult = some value)
    (quiet : notices.dialogs = []) : Agree (.ok (.success (Double.text value))) w notices where
  value other := by
    rw [known]
    constructor
    · intro same
      rw [text_inj finite (Printed.success_inj (Except.ok.inj same))]
    · intro same
      rw [Option.some.inj same]
  failure text := by
    rw [quiet]
    exact ⟨nofun, nofun⟩

theorem of_failure {dialog : Dialog} (unknown : w.lastResult = none) (shown : notices.dialogs = [dialog]) :
    Agree (.ok (.failed dialog.text)) w notices where
  value other := by
    rw [unknown]
    exact ⟨nofun, nofun⟩
  failure text := by
    simp only [shown, List.mem_singleton, exists_eq_left]
    exact ⟨fun same => Printed.failed_inj (Except.ok.inj same), fun same => by rw [same]⟩

end Agree

namespace Window

variable {settings : Settings} {file : FileContent} {formula : String} {arguments : List String} {press : Action}

/-- A new window with a formula and assignments in it. -/
def ready (settings : Settings) (file : FileContent) (formula assignments : String) : Window :=
  { (fresh settings file).edit formula with assignments }

theorem react_enter_fresh (noControl : formula ∉ ["<", "C", "↶", "📋", "⏎"]) :
    (fresh settings file).react (.enter [formula]) = calm ((fresh settings file).edit formula, .none) := by
  simp only [List.mem_cons, List.not_mem_nil, or_false, not_or] at noControl
  obtain ⟨erase, clear, undo, copy, start⟩ := noControl
  have appends : (fresh settings file).enter formula = ((fresh settings file).append formula, .none) := by
    rw [enter, if_neg erase, if_neg clear, if_neg undo, if_neg copy, if_neg start]
  have replaces : (fresh settings file).append formula = (fresh settings file).edit formula :=
    congrArg (Window.edit _) (if_pos (Or.inl rfl))
  simp only [react, enterAll, appends, replaces, append_none]

/-- A session in a new window comes down to starting a calculation and letting it report. -/
theorem session_fresh (noControl : formula ∉ ["<", "C", "↶", "📋", "⏎"]) (asks : press ∈ .click "⏎" :: starts) :
    (fresh settings file).after (session formula arguments press) =
        ((ready settings file formula (";".intercalate arguments)).start.1.finish 0).1 ∧
      ((fresh settings file).shown (session formula arguments press)).dialogs =
        (ready settings file formula (";".intercalate arguments)).start.2.dialogs ++
          ((ready settings file formula (";".intercalate arguments)).start.1.finish 0).2.dialogs := by
  have presses : (ready settings file formula (";".intercalate arguments)).react press =
      calm (ready settings file formula (";".intercalate arguments)).start := react_press asks rfl
  have assigns : ((fresh settings file).edit formula).react (.assign (";".intercalate arguments)) =
      calm (ready settings file formula (";".intercalate arguments), .none) := rfl
  constructor
  · simp only [session, after, react_enter_fresh noControl, calm, assigns, presses]
    rfl
  · simp only [session, shown, react_enter_fresh noControl, calm, assigns, presses, append_none]
    rfl

theorem problemOf_of_apart {lastResult : Option Float} (apart : ¬ answerName <:+: normalize formula.toList) :
    problemOf formula lastResult = .ok (String.ofList (normalize formula.toList)) := by
  have other : mentionsAnswer (normalize formula.toList) = false := Bool.eq_false_iff.2 (mt mentionsAnswer_iff.1 apart)
  unfold problemOf
  simp only [other, Bool.false_eq_true, if_false]

theorem questionOf_of_no_answer {assignments : String} (noAnswer : ¬ answerName <:+: normalize formula.toList) :
    questionOf formula assignments none = ((Assignment.readLine assignments).mapError Failure.report >>= fun numbers =>
      .ok ⟨String.ofList (normalize formula.toList), CommandLine.bindings numbers⟩) := by
  rw [questionOf, problemOf_of_apart noAnswer]
  rfl

theorem session_of_error {report : Report} (noControl : formula ∉ ["<", "C", "↶", "📋", "⏎"])
    (asks : press ∈ .click "⏎" :: starts)
    (asked : questionOf formula (";".intercalate arguments) none = .error report) :
    ((fresh settings file).after (session formula arguments press)).lastResult = none ∧
      ∃ dialog, ((fresh settings file).shown (session formula arguments press)).dialogs = [dialog] ∧
        dialog.text = report.describe := by
  obtain ⟨ends, shown⟩ := @session_fresh settings file formula arguments press noControl asks
  have starts : (ready settings file formula (";".intercalate arguments)).start = _ := start_of_error rfl asked
  rw [starts] at ends shown
  exact ⟨congrArg lastResult ends, _, shown, rfl⟩

theorem lastResult_receive_failure (w : Window) (report : Report) (problem : String) :
    (w.receive ⟨.failure report, problem⟩).1.lastResult = w.lastResult := rfl

/-- A session that starts a calculation ends when the window receives its message. -/
theorem session_of_ok {question : Question} (noControl : formula ∉ ["<", "C", "↶", "📋", "⏎"])
    (asks : press ∈ .click "⏎" :: starts)
    (asked : questionOf formula (";".intercalate arguments) none = .ok question) :
    ∃ w : Window, w.lastResult = none ∧
      (fresh settings file).after (session formula arguments press) = (w.receive (.of question settings)).1 ∧
      ((fresh settings file).shown (session formula arguments press)).dialogs =
        (w.receive (.of question settings)).2.dialogs := by
  obtain ⟨ends, shown⟩ := @session_fresh settings file formula arguments press noControl asks
  have starts : (ready settings file formula (";".intercalate arguments)).start = _ := start_of_ok rfl asked
  have reports : ((ready settings file formula (";".intercalate arguments)).launch question).finish 0 =
      receive { (ready settings file formula (";".intercalate arguments)).launch question with running := [] }
        (.of question settings) := rfl
  rw [starts, reports] at ends shown
  exact ⟨_, rfl, ends, shown⟩

end Window

/-- On a new window and the command line with its settings, a formula and assignments come to the same: the same number
is printed and known to the window, or the same failure is printed and shown. The formula may not name the last result,
which the command line does not have, and may not be one of the controls. -/
theorem front_ends_agree {file : FileContent} {w : Window} {notices : Notices} {formula : String}
    {arguments : List String} {places : Int} {press : Action} (opened : Window.new file = .ok (w, notices))
    (whole : w.settings.value? "decimal_places" = some (.whole places))
    (written : Text.allBlank formula.toList = false) (noAnswer : ¬ Window.answerName <:+: normalize formula.toList)
    (noControl : formula ∉ ["<", "C", "↶", "📋", "⏎"])
    (assigned : ∀ argument ∈ arguments, Text.allBlank argument.toList = false ∧ ';' ∉ argument.toList)
    (asks : press ∈ .click "⏎" :: Window.starts) :
    Agree (CommandLine.run (formula :: arguments) w.settings false) (w.after (session formula arguments press))
      (w.shown (session formula arguments press)) := by
  obtain ⟨⟨settings, unread⟩, _, same⟩ := bind_eq_ok.1 opened
  cases same
  change settings.value? "decimal_places" = some (.whole places) at whole
  have asked := @Window.questionOf_of_no_answer formula (";".intercalate arguments) noAnswer
  rw [Assignment.readLine_intercalate assigned] at asked
  change Agree (CommandLine.run (formula :: arguments) settings false) _ _
  rw [CommandLine.run_of_written written]
  cases reads : Assignment.readAll arguments with
  | error cause =>
    rw [reads] at asked
    obtain ⟨unknown, dialog, shown, text⟩ := @Window.session_of_error settings file _ _ _ _ noControl asks asked
    rw [CommandLine.result_evaluateWith_of_error reads]
    change Agree (.ok (.failed cause.report.describe)) _ _
    rw [← text]
    exact .of_failure unknown shown
  | ok numbers =>
    rw [reads] at asked
    obtain ⟨last, unknown, ends, shown⟩ := @Window.session_of_ok settings file _ _ _ _ noControl asks asked
    have settles := evaluate_settles (Assignment.allFinite_of_readAll reads)
      (FunctionTable.elementary (settings.isOn "degrees")) (String.ofList (normalize formula.toList))
    rw [CommandLine.result_evaluateWith_of_ok reads, ends]
    cases result : (evaluate (String.ofList (normalize formula.toList)) (CommandLine.bindings numbers)
        (.elementary (settings.isOn "degrees"))).result with
    | ok value =>
      obtain ⟨finite, _⟩ := settles.of_ok result
      obtain ⟨rendered, drawn⟩ := exists_render finite whole
      rw [Window.Message.of, Window.finding_of_ok (calculate_of_ok result drawn)] at shown ⊢
      exact .of_value finite rfl shown
    | error stop =>
      obtain ⟨cause, rfl, _⟩ := settles.of_error result
      rw [Window.Message.of, Window.finding_of_failure (calculate_of_error result)] at shown ⊢
      exact .of_failure ((last.lastResult_receive_failure _ _).trans unknown) shown

theorem front_ends_agree_on_third :
    let w := Window.fresh Settings.defaults none
    Agree (CommandLine.run ["x / 3", "x = 1"] w.settings false) (w.after (session "x / 3" ["x = 1"] (.click "⏎")))
      (w.shown (session "x / 3" ["x = 1"] (.click "⏎"))) := by
  intro w
  have opened : Window.new none = .ok (w, ⟨[], Settings.readLog (some .missing)⟩) := rfl
  have whole : w.settings.value? "decimal_places" = some (.whole 10) := rfl
  exact front_ends_agree opened whole (by decide +kernel) (by decide +kernel) (by decide +kernel)
    (by decide +kernel) List.mem_cons_self

/-- It is not enough that the formula as it is entered does not name the last result: its name may be spread out. -/
theorem front_ends_disagree_on_spread_name :
    Window.new none = .ok (Window.fresh Settings.defaults none, ⟨[], Settings.readLog (some .missing)⟩) ∧
      Settings.defaults.value? "decimal_places" = some (.whole 10) ∧
      Text.allBlank "A ns".toList = false ∧ ¬ Window.answerName <:+: "A ns".toList ∧
      "A ns" ∉ ["<", "C", "↶", "📋", "⏎"] ∧
      ¬ Agree (CommandLine.run ["A ns"] Settings.defaults false)
        ((Window.fresh Settings.defaults none).after (session "A ns" [] (.click "⏎")))
        ((Window.fresh Settings.defaults none).shown (session "A ns" [] (.click "⏎"))) := by
  refine ⟨rfl, rfl, by decide +kernel, by decide +kernel, by decide +kernel, fun agree => ?_⟩
  have printed : CommandLine.run ["A ns"] Settings.defaults false =
      .ok (.failed "Error 3031: There are undefined variables in the expression: Ans") := by decide +kernel
  have shown : ((Window.fresh Settings.defaults none).shown (session "A ns" [] (.click "⏎"))).dialogs.map Dialog.text =
      ["Error 4003: No Value in ANS"] := by decide +kernel
  obtain ⟨dialog, among, text⟩ := (agree.failure _).1 printed
  have member := List.mem_map_of_mem (f := Dialog.text) among
  rw [shown, text] at member
  exact absurd member (by decide +kernel)

end Reckoner
