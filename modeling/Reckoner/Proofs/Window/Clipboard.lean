import Mathlib
import Reckoner.Proofs.Window.Invariant
import Reckoner.Proofs.Window.ResultLine

namespace Reckoner.Window

theorem lastWord_append (before text : List Char) : lastWord (before ++ ' ' :: text) = lastWord text := by
  have stop : (' ' :: before.reverse).takeWhile (· ≠ ' ') = [] := rfl
  rw [lastWord, lastWord, List.reverse_append, List.reverse_cons, List.append_assoc, List.singleton_append,
    List.takeWhile_append, stop, List.append_nil]
  split
  · rename_i whole
    rw [(List.takeWhile_prefix _).eq_of_length whole]
  · rfl

theorem lastWord_of_isWord {text : List Char} (word : IsWord text) : lastWord text = text := by
  have kept : text.reverse.takeWhile (· ≠ ' ') = text.reverse := by
    rw [List.takeWhile_eq_self_iff]
    intro c member
    have shown := word.2 c (List.mem_reverse.1 member)
    simp only [ne_eq, decide_not, Bool.not_eq_true', decide_eq_false_iff_not]
    rintro rfl
    exact absurd shown (by decide)
  rw [lastWord, kept, List.reverse_reverse]

theorem lastWord_resultLine (w : Window) (problem : String) {answer : Answer} {rendered : Rendered}
    (text : answer.text = rendered.line) :
    lastWord (w.resultLine problem answer).toList = lastWord rendered.text.toList := by
  obtain ⟨before, sign, _, shape⟩ := w.toList_resultLine problem text
  rw [shape, ← List.singleton_append, ← List.append_assoc, lastWord_append]

/-- What asks for a copy: a click on the button, and its value. -/
def copies : List Action := [.click "📋", .enter ["📋"]]

theorem react_copy (w : Window) {press : Action} (asks : press ∈ copies) : w.react press = calm (w.copy, .none) := by
  simp only [copies, List.mem_cons, List.not_mem_nil, or_false] at asks
  rcases asks with rfl | rfl
  · rfl
  · exact congrArg calm (congrArg (Prod.mk w.copy) (append_none .none))

theorem finding_message {w : Window} {job : Job} {answer : Answer} :
    (w.message job).finding = .answer answer ↔
      calculate job.question.problem job.question.bindings (w.settingsAt job.settings) = .ok answer :=
  finding_eq_answer

theorem display_of_answer {w : Window} {place : Nat} {job : Job} {answer : Answer}
    (found : w.running[place]? = some job) (answers : (w.message job).finding = .answer answer) :
    (w.react (.finish place)).window.display = w.resultLine job.question.problem answer := by
  change (w.finish place).1.display = _
  unfold finish
  rw [found]
  simp only [receive, answers]
  rfl

/-- Consider a window in which a calculation reports an answer, and any later time at which the line of that answer is
still on display. With shift a copy takes the line. Without shift it takes the rendered value exactly if the value is
not shown as a mixed number; of a mixed number it takes the fraction and leaves the whole part out. -/
theorem copy_result {w : Window} {place : Nat} {job : Job} {answer : Answer} {later : List Action} {press : Action}
    (found : w.running[place]? = some job) (answers : (w.message job).finding = .answer answer)
    (still : (w.after (.finish place :: later)).display = (w.react (.finish place)).window.display)
    (asks : press ∈ copies) :
    let settings := w.settingsAt job.settings
    let line := w.resultLine job.question.problem answer
    let now := w.after (.finish place :: later)
    let copied := (now.react press).window.clipboard
    now.display = line ∧ ∃ rendered, render answer.value settings = .ok rendered ∧ answer.text = rendered.line ∧
      ((now.shiftHeld || now.shiftReported) = true → copied = some line) ∧
      ((now.shiftHeld || now.shiftReported) = false →
        (copied = some rendered.text ↔ ¬ ShownMixed answer.value settings) ∧
        (ShownMixed answer.value settings →
          ∃ whole part, IsWord whole.toList ∧ rendered.text = whole ++ " " ++ part ∧ copied = some part)) := by
  intro settings line now copied
  have displayed : now.display = line := still.trans (display_of_answer found answers)
  obtain ⟨evaluated, rendered, drawn, text⟩ := calculate_eq_ok.1 (finding_message.1 answers)
  have finite := (proper_of_evaluate evaluated).1
  have taken : copied = some (if now.shiftHeld ∨ now.shiftReported then now.display
      else String.ofList (lastWord now.display.toList)) := by
    change (now.react press).window.clipboard = _
    rw [now.react_copy asks]
    rfl
  rw [displayed, lastWord_resultLine w _ text] at taken
  refine ⟨displayed, rendered, drawn, text, fun shift => ?_, fun noShift => ?_⟩
  · rw [taken, if_pos (by simpa using shift)]
  · rw [if_neg (by simpa using noShift)] at taken
    have ofMixed (mixed : ShownMixed answer.value settings) :
        ∃ whole part, IsWord whole.toList ∧ rendered.text = whole ++ " " ++ part ∧ copied = some part := by
      obtain ⟨whole, part, wordWhole, wordPart, same⟩ := words_of_render finite drawn mixed
      have shape : rendered.text.toList = whole.toList ++ ' ' :: part.toList := by
        rw [same, String.toList_append, String.toList_append, List.append_assoc]
        rfl
      refine ⟨whole, part, wordWhole, same, ?_⟩
      rw [taken, shape, lastWord_append, lastWord_of_isWord wordPart, String.ofList_toList]
    refine ⟨⟨fun all mixed => ?_, fun other => ?_⟩, ofMixed⟩
    · obtain ⟨whole, part, _, same, onlyPart⟩ := ofMixed mixed
      have lengths := congrArg String.length (Option.some.inj (all.symm.trans onlyPart))
      rw [same, String.length_append, String.length_append] at lengths
      change _ + 1 + _ = _ at lengths
      omega
    · rw [taken, lastWord_of_isWord (isWord_of_render finite drawn other), String.ofList_toList]

theorem copy_quotient :
    let w := (fresh Settings.defaults none).after [.enter ["1", "/", "4"], .keyDown "Enter"]
    let now := w.after (.finish 0 :: [.keyDown "Shift", .keyUp "Shift"])
    ∃ rendered, render 0.25 (w.settingsAt 0) = .ok rendered ∧
      (now.react (.click "📋")).window.clipboard = some rendered.text := by
  intro w now
  have found : w.running[0]? = some ⟨⟨"1/4", CommandLine.bindings .empty⟩, 0⟩ := rfl
  have comes : (calculate "1/4" (CommandLine.bindings .empty) (w.settingsAt 0)).toOption.map Answer.value =
      some 0.25 := by decide +kernel
  have plain : (w.settingsAt 0).isOn "fractions" = false := by decide +kernel
  have still : now.display = (w.react (.finish 0)).window.display := by decide +kernel
  have released : (now.shiftHeld || now.shiftReported) = false := by decide +kernel
  clear_value w
  cases came : calculate "1/4" (CommandLine.bindings .empty) (w.settingsAt 0) with
  | error stop =>
    rw [came] at comes
    exact nomatch comes
  | ok answer =>
    rw [came] at comes
    have value : answer.value = 0.25 := Option.some.inj comes
    have answers : (w.message ⟨⟨"1/4", CommandLine.bindings .empty⟩, 0⟩).finding = .answer answer :=
      finding_message.2 came
    have asks : Action.click "📋" ∈ copies := List.mem_cons_self
    obtain ⟨_, rendered, drawn, _, _, copied⟩ := copy_result found answers still asks
    refine ⟨rendered, value ▸ drawn, (copied released).1.2 fun mixed => ?_⟩
    exact absurd (plain.symm.trans mixed.1) (by decide)

/-- Of one and a half, shown as a mixed number, only the half is copied. -/
theorem copy_one_and_half :
    let w := (fresh Settings.defaults none).after
      [.configure [("fractions", .flag true)] .ok, .enter ["1", ".", "5"], .keyDown "Enter", .finish 0]
    Window.new none = .ok (fresh Settings.defaults none, ⟨[], Settings.readLog (some .missing)⟩) ∧
      w.lastResult = some 1.5 ∧ w.display = "1.5 = 1 1/2" ∧
      render 1.5 w.settings = .ok ⟨"1 1/2", false⟩ ∧ (w.shiftHeld || w.shiftReported) = false ∧
      (w.react (.click "📋")).window.clipboard = some "1/2" := by
  refine ⟨new_of_missing, ?_⟩
  decide +kernel

end Reckoner.Window
