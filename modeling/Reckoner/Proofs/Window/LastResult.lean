import Mathlib
import Reckoner.Proofs.Window.Isolation
import Reckoner.Proofs.Window.ResultLine

namespace Reckoner.Window

/-- The value of a finding, if it is an answer. -/
def Finding.value? : Finding → Option Float
  | .answer found => some found.value
  | .failure _ | .crash _ => none

def Message.value? (message : Message) : Option Float := message.finding.value?

/-- The values of the answers that come during actions, in the order in which they come. -/
def answers (w : Window) (actions : List Action) : List Float := (w.messages actions).filterMap Message.value?

theorem answers_cons (w : Window) (action : Action) (rest : List Action) :
    w.answers (action :: rest) =
      (w.delivering action).filterMap (Message.value? ∘ Prod.snd) ++ (w.react action).window.answers rest := by
  rw [answers, messages, delivered, List.map_append, List.filterMap_append, List.filterMap_map]
  rfl

theorem Change.lastResult_eq {w next : Window} (changed : Change w next) : next.lastResult = w.lastResult := by
  cases changed with
  | aside | reread | edited | started => rfl
  | undone =>
    unfold undo
    split <;> rfl

theorem Changes.lastResult_eq {w next : Window} (changed : Changes w next) : next.lastResult = w.lastResult := by
  induction changed with
  | refl => rfl
  | tail _ changed ih => exact changed.lastResult_eq.trans ih

theorem receive_lastResult (w : Window) (message : Message) :
    (w.receive message).1.lastResult = message.value?.or w.lastResult := by
  rcases message with ⟨answer | report | report, problem⟩ <;> rfl

/-- In one action the last result becomes the value of the answer that comes in it, if one does. -/
theorem react_lastResult {w : Window} (holds : Invariant w) (action : Action) :
    (w.react action).window.lastResult =
      ((w.delivering action).filterMap (Message.value? ∘ Prod.snd)).getLast?.or w.lastResult := by
  by_cases other : ∀ place, action ≠ .finish place
  · rw [delivering_of_ne other]
    exact (changes_react other holds.running_of_idle).lastResult_eq
  · obtain ⟨place, same⟩ := not_forall.1 other
    rw [not_not.1 same]
    change (w.finish place).1.lastResult = ((w.running[place]?.map _).toList.filterMap _).getLast?.or w.lastResult
    unfold finish
    cases w.running[place]? with
    | none => rfl
    | some job =>
      have received := receive_lastResult { w with running := w.running.eraseIdx place } (w.message job)
      rw [Option.map_some, Option.toList_some, List.filterMap_cons, Function.comp_apply]
      dsimp only
      rw [received]
      cases (w.message job).value? <;> rfl

theorem lastResult_after {w : Window} (holds : Invariant w) (actions : List Action) :
    (w.after actions).lastResult = (w.answers actions).getLast?.or w.lastResult := by
  induction actions generalizing w with
  | nil => rfl
  | cons action rest ih =>
    rw [after, ih (holds.react action), react_lastResult holds, answers_cons, List.getLast?_append, Option.or_assoc]

/-- Every message tells what a calculation comes to. -/
theorem exists_of_mem_messages {w : Window} {actions : List Action} {message : Message}
    (member : message ∈ w.messages actions) : ∃ question settings, message = .of question settings := by
  induction actions generalizing w with
  | nil => exact absurd member List.not_mem_nil
  | cons action rest ih =>
    rw [messages, delivered, List.map_append] at member
    rcases List.mem_append.1 member with now | later
    · by_cases other : ∀ place, action ≠ .finish place
      · rw [delivering_of_ne other] at now
        exact absurd now List.not_mem_nil
      · obtain ⟨place, same⟩ := not_forall.1 other
        rw [not_not.1 same, delivering] at now
        obtain ⟨_, among, rfl⟩ := List.mem_map.1 now
        obtain ⟨job, _, rfl⟩ := Option.map_eq_some_iff.1 (Option.mem_toList.1 among)
        exact ⟨_, _, rfl⟩
    · exact ih later

theorem proper_of_mem_answers {w : Window} {actions : List Action} {value : Float}
    (member : value ∈ w.answers actions) :
    Evaluation.Proper value := by
  obtain ⟨message, told, brings⟩ := List.mem_filterMap.1 member
  obtain ⟨question, settings, rfl⟩ := exists_of_mem_messages told
  change (Finding.of question settings).value? = some value at brings
  cases found : Finding.of question settings with
  | answer answer =>
    rw [found] at brings
    cases brings
    exact proper_of_evaluate (calculate_eq_ok.1 (finding_eq_answer.1 found)).1
  | failure report | crash report =>
    rw [found] at brings
    exact nomatch brings

theorem lastResult_of_new {file : FileContent} {new : Window} {notices : Notices}
    (opened : Window.new file = .ok (new, notices)) (actions : List Action) :
    (new.after actions).lastResult = (new.answers actions).getLast? := by
  have holds := invariant_new opened
  obtain ⟨⟨settings, unread⟩, _, same⟩ := bind_eq_ok.1 opened
  cases same
  exact (lastResult_after holds actions).trans Option.or_none

theorem proper_of_lastResult {file : FileContent} {new : Window} {notices : Notices} {actions : List Action}
    {value : Float} (opened : Window.new file = .ok (new, notices))
    (known : (new.after actions).lastResult = some value) : Evaluation.Proper value :=
  proper_of_mem_answers (List.mem_of_getLast? ((lastResult_of_new opened actions).symm.trans known))

/-- An action in which a calculation fails, with the report of the failure. It cannot be started, because it needs a
last result and there is none or because the assignments cannot be read; or it is done, and tells of a failure or a
crash. -/
inductive Fails (w : Window) : Action → Report → Prop
  | unknown {press : Action} {waiting : List Action} (asks : Asks press waiting) (idle : w.busy = false)
      (named : mentionsAnswer (normalize w.formula.toList) = true) (none : w.lastResult = none) :
      Fails w press { Failure.noLastResult.report with equation := some (String.ofList (normalize w.formula.toList)) }
  | unreadable {press : Action} {waiting : List Action} {cause : Failure} (asks : Asks press waiting)
      (idle : w.busy = false)
      (known : mentionsAnswer (normalize w.formula.toList) = true → w.lastResult ≠ none)
      (reads : Assignment.readLine w.assignments = .error cause) : Fails w press cause.report
  | failure {place : Nat} {job : Job} {report : Report} (found : w.running[place]? = some job)
      (told : (w.message job).finding = .failure report) : Fails w (.finish place) report
  | crash {place : Nat} {job : Job} {report : Report} (found : w.running[place]? = some job)
      (told : (w.message job).finding = .crash report) : Fails w (.finish place) report

/-- What is left of a calculation that failed: an idle window with everything that it
remembered, and one message box. -/
structure LeavesBox (w : Window) (reaction : Reaction) (report : Report) : Prop where
  formula_eq : reaction.window.formula = w.formula
  undoList_eq : reaction.window.undoList = w.undoList
  lastResult_eq : reaction.window.lastResult = w.lastResult
  idle : reaction.window.busy = false ∧ reaction.window.running = []
  enabled : reaction.window.enterEnabled = true
  one_box : reaction.notices.dialogs = [w.failureBox report]

theorem problemOf_eq_error {formula : String} {lastResult : Option Float} {report : Report} :
    problemOf formula lastResult = .error report ↔
      mentionsAnswer (normalize formula.toList) = true ∧ lastResult = none ∧
        { Failure.noLastResult.report with equation := some (String.ofList (normalize formula.toList)) } = report := by
  unfold problemOf
  dsimp only
  cases mentionsAnswer (normalize formula.toList) <;> cases lastResult <;> simp

theorem exists_problemOf {formula : String} {lastResult : Option Float}
    (known : mentionsAnswer (normalize formula.toList) = true → lastResult ≠ none) :
    ∃ problem, problemOf formula lastResult = .ok problem := by
  cases asked : problemOf formula lastResult with
  | ok problem => exact ⟨problem, rfl⟩
  | error report =>
    obtain ⟨named, none, _⟩ := problemOf_eq_error.1 asked
    exact absurd none (known named)

theorem questionOf_of_unreadable {formula assignments : String} {lastResult : Option Float} {cause : Failure}
    (known : mentionsAnswer (normalize formula.toList) = true → lastResult ≠ none)
    (reads : Assignment.readLine assignments = .error cause) :
    questionOf formula assignments lastResult = .error cause.report := by
  obtain ⟨problem, asked⟩ := exists_problemOf known
  rw [questionOf, asked, reads]
  rfl

/-- A start in an idle window begins a calculation or fails. -/
theorem busy_or_fails {w : Window} {press : Action} {waiting : List Action} (holds : Invariant w)
    (idle : w.busy = false)
    (asks : Asks press waiting) : (w.react press).window.busy = true ∨ ∃ report, Fails w press report := by
  cases problem : problemOf w.formula w.lastResult with
  | error report =>
    obtain ⟨named, none, _⟩ := problemOf_eq_error.1 problem
    exact Or.inr ⟨_, .unknown asks idle named none⟩
  | ok text =>
    cases reads : Assignment.readLine w.assignments with
    | error cause =>
      refine Or.inr ⟨_, .unreadable asks idle (fun named none => ?_) reads⟩
      exact nomatch problem.symm.trans (problemOf_eq_error.2 ⟨named, none, rfl⟩)
    | ok numbers =>
      have asked : questionOf w.formula w.assignments w.lastResult = .ok ⟨text, CommandLine.bindings numbers⟩ := by
        rw [questionOf, problem, reads]
        rfl
      rw [react_asks_of_ok asks (holds.enter_iff.2 idle) (accept_of_ok idle asked)]
      exact Or.inl ((changes_after_of_waiting (w := w.await) rfl (holds.running_of_idle idle) waiting).of_busy rfl).1

theorem answer_or_fails {w : Window} {place : Nat} {job : Job} (found : w.running[place]? = some job) :
    (∃ answer, (w.message job).finding = .answer answer) ∨ ∃ report, Fails w (.finish place) report := by
  cases told : (w.message job).finding with
  | answer answer => exact Or.inl ⟨answer, rfl⟩
  | failure report => exact Or.inr ⟨report, .failure found told⟩
  | crash report => exact Or.inr ⟨report, .crash found told⟩

theorem leavesBox_of_refused {w : Window} {press : Action} {waiting : List Action} {report : Report}
    (holds : Invariant w)
    (idle : w.busy = false) (asks : Asks press waiting)
    (asked : questionOf w.formula w.assignments w.lastResult = .error report) :
    LeavesBox w (w.react press) report := by
  rw [react_asks_of_error asks (holds.enter_iff.2 idle) (accept_of_error idle asked)]
  exact ⟨rfl, rfl, rfl, ⟨idle, holds.running_of_idle idle⟩, holds.enter_iff.2 idle, rfl⟩

/-- Every failure leaves the same behind, whenever it comes and whatever it is. -/
theorem Fails.leavesBox {w : Window} {action : Action} {report : Report} (fails : Fails w action report)
    (holds : Invariant w) : LeavesBox w (w.react action) report := by
  cases fails with
  | unknown asks idle named none =>
    refine leavesBox_of_refused holds idle asks ?_
    rw [questionOf, problemOf_eq_error.2 ⟨named, none, rfl⟩]
    rfl
  | unreadable asks idle known reads =>
    exact leavesBox_of_refused holds idle asks (questionOf_of_unreadable known reads)
  | failure found told | crash found told =>
    change LeavesBox w (calm (w.finish _)) report
    unfold finish
    rw [found]
    dsimp only
    rw [holds.eraseIdx_running found, receive, told]
    exact ⟨rfl, rfl, rfl, ⟨rfl, rfl⟩, rfl, rfl⟩

/-- Values that are entered in one action count one by one. -/
theorem react_enter_singly (w : Window) (values : List String) :
    (w.react (.enter values)).window = w.after (values.map fun value => .enter [value]) ∧
      (w.react (.enter values)).notices.dialogs = (w.shown (values.map fun value => .enter [value])).dialogs := by
  induction values generalizing w with
  | nil => exact ⟨rfl, rfl⟩
  | cons value rest ih =>
    obtain ⟨window, dialogs⟩ := ih (w.enter value).1
    have first : w.react (.enter [value]) = calm (w.enter value) := congrArg calm (Prod.ext rfl (append_none _))
    simp only [List.map_cons, after, shown, first]
    refine ⟨window, ?_⟩
    change (w.enter value).2.dialogs ++ ((w.enter value).1.enterAll rest).2.dialogs = (w.enter value).2.dialogs ++ _
    exact congrArg _ dialogs

/-- In every run of a new window the last result is the value of the answer that came last, and there is none before the
first one; it is finite and not the negative zero. A calculation that is started or done either goes well or fails, and
whenever one fails it leaves the window idle, with the formula, the texts to go back to and the last result that it
found, and shows one message box. This holds for each of several values that are entered at once as well. -/
theorem lastResult_survives_failures {file : FileContent} {new : Window} {notices : Notices}
    (opened : Window.new file = .ok (new, notices)) (actions : List Action) :
    let w := new.after actions
    w.lastResult = (new.answers actions).getLast? ∧
    (∀ value, w.lastResult = some value → Evaluation.Proper value) ∧
    (∀ action report, Fails w action report → LeavesBox w (w.react action) report) ∧
    (∀ press waiting, Asks press waiting → w.busy = false →
      (w.react press).window.busy = true ∨ ∃ report, Fails w press report) ∧
    (∀ place job, w.running[place]? = some job →
      (∃ answer, (w.message job).finding = .answer answer) ∨ ∃ report, Fails w (.finish place) report) ∧
    ∀ values, (w.react (.enter values)).window = w.after (values.map fun value => .enter [value]) ∧
      (w.react (.enter values)).notices.dialogs = (w.shown (values.map fun value => .enter [value])).dialogs := by
  intro w
  have holds : Invariant w := (invariant_new opened).after actions
  exact ⟨lastResult_of_new opened actions, fun _ known => proper_of_lastResult opened known,
    fun _ _ fails => fails.leavesBox holds, fun _ _ asks idle => busy_or_fails holds idle asks,
    fun _ _ found => answer_or_fails found, w.react_enter_singly⟩

/-- A division by zero that fails after further typing, with three as the last result. -/
theorem three_survives_division :
    let w := (fresh Settings.defaults none).after [.enter ["1", "+", "2"], .keyDown "Enter", .finish 0,
      .enter ["1", "/", "0"], .click "⏎", .enter ["7"]]
    w.lastResult = some 3.0 ∧ Evaluation.Proper 3.0 ∧
      ∃ report, Fails w (.finish 0) report ∧ LeavesBox w (w.react (.finish 0)) report := by
  intro w
  obtain ⟨_, proper, leaves, _, answersOrFails, _⟩ := lastResult_survives_failures new_of_missing
    [.enter ["1", "+", "2"], .keyDown "Enter", .finish 0, .enter ["1", "/", "0"], .click "⏎", .enter ["7"]]
  have three : w.lastResult = some 3.0 := by decide +kernel
  have pending : (w.running[0]?.map fun job => (w.message job).value?) = some none := by decide +kernel
  obtain ⟨job, found, noValue⟩ := Option.map_eq_some_iff.1 pending
  refine ⟨three, proper _ three, ?_⟩
  rcases answersOrFails 0 job found with ⟨answer, told⟩ | ⟨report, fails⟩
  · rw [Message.value?, told] at noValue
    exact nomatch noValue
  · exact ⟨report, fails, leaves _ _ fails⟩

end Reckoner.Window
