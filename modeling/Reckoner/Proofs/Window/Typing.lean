import Mathlib
import Reckoner.Proofs.Window.Keypad
import Reckoner.Proofs.Window.ResultLine

namespace Reckoner.Window

variable {w : Window} {job : Job} {problem : String} {answer : Answer}

/-- The window with an answer taken in and shown. -/
def answered (w : Window) (problem : String) (answer : Answer) : Window :=
  let line := w.resultLine problem answer
  { w.setBusy false with running := [], lastResult := some answer.value, display := line, history := line :: w.history }

theorem react_finish_of_answer (running : w.running = [job]) (tells : w.message job = ⟨.answer answer, problem⟩) :
    w.react (.finish 0) = calm (w.answered problem answer, .none) := by
  change calm (w.finish 0) = _
  unfold finish
  rw [running]
  change calm (receive _ (w.message job)) = _
  rw [tells]
  rfl

theorem messages_of_running (running : w.running = [job]) : w.messages [.finish 0] = [w.message job] := by
  rw [messages, delivered, delivering, running]
  rfl

/-- Behind an answer that does not read like the formula, labels start a new formula. -/
theorem formula_after_answer (running : w.running = [job]) (tells : w.message job = ⟨.answer answer, problem⟩)
    (apart : w.formula ≠ w.resultLine problem answer) {labels : List String}
    (entered : ∀ label ∈ labels, label ∈ entries) (pressed : labels ≠ []) :
    (w.after (.finish 0 :: clicks labels)).formula = spelled labels := by
  rw [after, react_finish_of_answer running tells]
  have anew : (w.answered problem answer).StartsAnew := Or.inr apart.symm
  obtain ⟨history, same⟩ := after_clicks anew entered pressed
  exact congrArg formula same

/-- The line of a result has a blank in it, which no label has. -/
theorem spelled_ne_resultLine {rendered : Rendered} (text : answer.text = rendered.line) {labels : List String}
    (entered : ∀ label ∈ labels, label ∈ entries) : spelled labels ≠ w.resultLine problem answer := by
  intro same
  obtain ⟨before, sign, _, shape⟩ := w.toList_resultLine problem text
  have member : ' ' ∈ (spelled labels).toList := by
    rw [same, shape]
    exact List.mem_append_right _ (List.mem_cons_of_mem _ List.mem_cons_self)
  exact absurd (clean_spelled entered ' ' member).1 (by decide)

/-- Consider a reachable window that waits for a calculation that will succeed, while its formula is still the one that
was submitted. The labels that are clicked give what they spell if the answer comes before or behind all of them. If it
comes between two of them, only the labels behind it are left. -/
theorem typing_around_answer {file : FileContent} {new : Window} {notices : Notices} {before between : List Action}
    {press : Action} (opened : Window.new file = .ok (new, notices)) (idle : (new.after before).busy = false)
    (asks : press ∈ .click "⏎" :: starts) (accepted : ((new.after before).react press).window.busy = true)
    (quiet : ∀ action ∈ between, action ≠ .finish 0)
    (kept : (new.after (before ++ press :: between)).formula = (new.after before).formula)
    (waiting : (new.after (before ++ press :: between)).display = waitingText)
    (succeeds : (new.after (before ++ press :: between)).messages [.finish 0] = [⟨.answer answer, problem⟩]) :
    let typed first second :=
      (new.after (before ++ press :: between ++ clicks first ++ .finish 0 :: clicks second)).formula
    (∀ labels, (∀ label ∈ labels, label ∈ entries) → labels ≠ [] →
      typed [] labels = spelled labels ∧ typed labels [] = spelled labels) ∧
    ∀ first second, (∀ label ∈ first ++ second, label ∈ entries) → first ≠ [] → second ≠ [] →
      typed first second = spelled second := by
  intro typed
  have holds := (invariant_new opened).after before
  obtain ⟨question, job, asked, running, tells⟩ := pending_after_start holds idle (.free asks) accepted quiet
  rw [← after_append] at running tells
  change _ = Message.of question (new.after before).settings at tells
  have told : Message.of question (new.after before).settings = ⟨.answer answer, problem⟩ := by
    rw [messages_of_running running, tells] at succeeds
    exact List.head_eq_of_cons_eq succeeds
  have found : Finding.of question (new.after before).settings = .answer answer := congrArg Message.finding told
  obtain rfl : question.problem = problem := congrArg Message.problem told
  obtain ⟨_, rendered, _, text⟩ := calculate_eq_ok.1 (finding_eq_answer.1 found)
  obtain ⟨noDots, noLine⟩ := ne_of_answer asked found
  rw [told] at tells
  have splits (first second : List String) : typed first second =
      (((new.after (before ++ press :: between)).after (clicks first)).after (.finish 0 :: clicks second)).formula := by
    rw [← after_append, ← after_append, ← List.append_assoc]
  generalize new.after (before ++ press :: between) = w at kept waiting running tells splits
  have anew : w.StartsAnew := Or.inr (by rw [waiting, kept]; exact noDots.symm)
  constructor
  · intro labels entered pressed
    constructor
    · rw [splits]
      exact formula_after_answer running tells (kept ▸ noLine w) entered pressed
    · obtain ⟨history, same⟩ := after_clicks anew entered pressed
      let typing : Window := { w with formula := spelled labels, display := spelled labels, history }
      have ends : typing.react (.finish 0) = calm (typing.answered question.problem answer, .none) :=
        react_finish_of_answer running tells
      rw [splits, same]
      exact congrArg (fun reaction => reaction.window.formula) ends
  · intro first second entered pressedFirst pressedSecond
    obtain ⟨enteredFirst, enteredSecond⟩ := List.forall_mem_append.1 entered
    obtain ⟨history, same⟩ := after_clicks anew enteredFirst pressedFirst
    let typing : Window := { w with formula := spelled first, display := spelled first, history }
    have apart : typing.formula ≠ typing.resultLine question.problem answer := spelled_ne_resultLine text enteredFirst
    rw [splits, same]
    exact formula_after_answer (w := typing) running tells apart enteredSecond pressedSecond

theorem typing_around_sum :
    let typed first second := ((fresh Settings.defaults none).after ([.enter ["1", "+", "2"]] ++
      .keyDown "Enter" :: [.assign "x = 1"] ++ clicks first ++ .finish 0 :: clicks second)).formula
    typed [] ["0", "4", "5"] = spelled ["0", "4", "5"] ∧ typed ["0", "4", "5"] [] = spelled ["0", "4", "5"] ∧
      typed ["0", "4"] ["5"] = spelled ["5"] := by
  have holds := (invariant_new new_of_missing).after [.enter ["1", "+", "2"]]
  have accepted :
    (((fresh Settings.defaults none).after [.enter ["1", "+", "2"]]).react (.keyDown "Enter")).window.busy =
      true := by decide +kernel
  have quiet : ∀ action ∈ [Action.assign "x = 1"], action ≠ .finish 0 := by simp
  have pending := pending_after_start holds (by decide +kernel) (.free (by simp [starts])) accepted quiet
  obtain ⟨question, job, asked, running, tells⟩ := pending
  have asks : questionOf "1+2" "" none = .ok ⟨"1+2", CommandLine.bindings .empty⟩ := rfl
  obtain rfl : ⟨"1+2", CommandLine.bindings .empty⟩ = question := Except.ok.inj (asks.symm.trans asked)
  have answers : (calculate "1+2" (CommandLine.bindings .empty) Settings.defaults).toOption.isSome = true := by
    decide +kernel
  cases found : calculate "1+2" (CommandLine.bindings .empty) Settings.defaults with
  | error stop =>
    rw [found] at answers
    exact nomatch answers
  | ok answer =>
    have finding : Finding.of ⟨"1+2", CommandLine.bindings .empty⟩ Settings.defaults = .answer answer :=
      finding_eq_answer.2 found
    change _ = Message.of ⟨"1+2", CommandLine.bindings .empty⟩ Settings.defaults at tells
    have succeeds := messages_of_running running
    rw [tells, Message.of, finding] at succeeds
    have types :=
      typing_around_answer new_of_missing (by decide +kernel) (by simp [starts]) accepted quiet (by decide +kernel)
      (by decide +kernel) succeeds
    have around := types.1 ["0", "4", "5"] (by decide +kernel) (by simp)
    exact ⟨around.1, around.2, types.2 ["0", "4"] ["5"] (by decide +kernel) (by simp) (by simp)⟩

/-- An answer that comes between two labels undoes the typing of the first one. -/
theorem label_lost_to_answer :
    let asked := (fresh Settings.defaults none).after [.enter ["1", "+", "2"], .keyDown "Enter"]
    Window.new none = .ok (fresh Settings.defaults none, ⟨[], Settings.readLog (some .missing)⟩) ∧
      asked.busy = true ∧ asked.formula = "1+2" ∧ asked.display = waitingText ∧
      (asked.react (.finish 0)).window.lastResult = some 3.0 ∧ (∀ label ∈ ["4", "5"], label ∈ entries) ∧
      (asked.after (.finish 0 :: clicks ["4", "5"])).formula = "45" ∧
      (asked.after (clicks ["4", "5"] ++ [.finish 0])).formula = "45" ∧
      (asked.after (clicks ["4"] ++ .finish 0 :: clicks ["5"])).formula = "5" := by
  refine ⟨new_of_missing, ?_⟩
  decide +kernel

end Reckoner.Window
