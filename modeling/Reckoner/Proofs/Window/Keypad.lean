import Mathlib
import Reckoner.Proofs.FrontEnds
import Reckoner.Proofs.Window.Isolation

namespace Reckoner.Window

/-- The labels that a click adds to the formula. -/
def entries : List String := labels.filter fun label => !controls.contains label

/-- A click on each of the labels in turn. -/
def clicks (labels : List String) : List Action := labels.map .click

/-- The formula that labels spell where a zero, or something to be replaced, was before. Zeros in front are lost, but
for the last one if nothing else comes. -/
def spelled (labels : List String) : String :=
  let rest := labels.dropWhile (· = blank)
  if rest = [] then blank else String.join rest

theorem written_entries : ∀ label ∈ entries, label ≠ "" := by decide +kernel

theorem clean_entries : ∀ label ∈ entries, ∀ c ∈ label.toList, Text.isBlank c = false ∧ c ≠ ',' := by
  have checked : (entries.all fun label => label.toList.all fun c => !Text.isBlank c && c ≠ ',') = true := by
    decide +kernel
  simpa using checked

theorem no_capital_of_entries : ∀ label ∈ entries, label ≠ "Ans" → 'A' ∉ label.toList := by decide +kernel

/-- A zero alone is replaced by the label after it, and any other text goes on. -/
theorem spelled_concat {labels : List String} (written : ∀ label ∈ labels, label ≠ "") (label : String) :
    spelled (labels ++ [label]) = if spelled labels = blank then label else spelled labels ++ label := by
  unfold spelled
  rw [List.dropWhile_append]
  cases rest : labels.dropWhile (· = blank) with
  | nil =>
    by_cases zero : label = blank <;> simp [zero, String.join]
  | cons first others =>
    have member : first ∈ labels := (List.dropWhile_sublist _).subset (rest ▸ List.mem_cons_self)
    have other : first ≠ blank := by
      have stopped := List.head_dropWhile_not (· = blank) (l := labels) (by rw [rest]; exact List.cons_ne_nil _ _)
      simp only [rest, List.head_cons, decide_eq_false_iff_not] at stopped
      exact stopped
    have longer : String.join (first :: others) ≠ blank := by
      intro same
      obtain ⟨c, more, shape⟩ := List.exists_cons_of_ne_nil (mt String.toList_eq_nil_iff.1 (written first member))
      have zero := congrArg String.toList same
      rw [String.join_cons, String.toList_append, shape] at zero
      change c :: (more ++ _) = ['0'] at zero
      obtain ⟨rfl, none⟩ := List.cons.inj zero
      rw [(List.append_eq_nil_iff.1 none).1] at shape
      exact other (String.toList_inj.1 shape)
    have single : String.join [label] = label := String.empty_append
    simp only [List.isEmpty_cons, Bool.false_eq_true, if_false, reduceCtorEq, List.append_eq_nil_iff, false_and]
    rw [if_neg longer, String.join_append, single]

theorem mem_spelled {labels : List String} {c : Char} (member : c ∈ (spelled labels).toList) :
    c = '0' ∨ ∃ label ∈ labels, c ∈ label.toList := by
  unfold spelled at member
  dsimp only at member
  split at member
  · exact Or.inl (List.mem_singleton.1 member)
  · rw [String.toList_join, List.mem_flatMap] at member
    obtain ⟨label, among, inLabel⟩ := member
    exact Or.inr ⟨label, (List.dropWhile_sublist _).subset among, inLabel⟩

theorem react_click_entry (w : Window) {label : String} (entry : label ∈ entries) :
    w.react (.click label) = calm (w.append label, .none) := by
  obtain ⟨onGrid, free⟩ := List.mem_filter.1 entry
  have noControl : label ∉ controls := by simpa using free
  simp only [controls, List.mem_cons, List.not_mem_nil, or_false, not_or] at noControl
  obtain ⟨gear, copy, undo, erase, clear, start⟩ := noControl
  have known : labels.contains label = true := List.contains_iff_mem.2 onGrid
  rw [react, if_neg gear, if_neg fun both => start both.1, if_pos known, enter, if_neg erase, if_neg clear,
    if_neg undo, if_neg copy, if_neg start]

/-- Whether the next label starts a new formula. -/
def StartsAnew (w : Window) : Prop := w.formula = blank ∨ w.display ≠ w.formula

/-- After clicks on labels the formula is what they spell, and it is shown. Nothing but the texts to go back to changes
besides. -/
theorem after_clicks {w : Window} (anew : w.StartsAnew) {labels : List String}
    (entered : ∀ label ∈ labels, label ∈ entries)
    (pressed : labels ≠ []) :
    ∃ history, w.after (clicks labels) = { w with formula := spelled labels, display := spelled labels, history } := by
  induction labels using List.reverseRecOn with
  | nil => exact absurd rfl pressed
  | append_singleton labels label ih =>
    obtain ⟨before, last⟩ := List.forall_mem_append.1 entered
    have entry := last label (List.mem_singleton_self label)
    have next := spelled_concat (fun other member => written_entries other (before other member)) label
    have splits : clicks (labels ++ [label]) = clicks labels ++ [.click label] := List.map_append
    rw [splits, after_append]
    change ∃ history, ((w.after (clicks labels)).react (.click label)).window = _
    rw [react_click_entry _ entry]
    change ∃ history, (w.after (clicks labels)).append label = _
    rw [next]
    by_cases first : labels = []
    · subst first
      have replaces : w.append label = w.edit label := congrArg (Window.edit w) (if_pos anew)
      exact ⟨_, replaces⟩
    · obtain ⟨history, same⟩ := ih before first
      rw [same, append]
      simp only [ne_eq, not_true_eq_false, or_false]
      exact ⟨_, rfl⟩

theorem dialogs_shown_clicks {w : Window} {labels : List String} (entered : ∀ label ∈ labels, label ∈ entries) :
    (w.shown (clicks labels)).dialogs = [] := by
  induction labels generalizing w with
  | nil => rfl
  | cons label rest ih =>
    obtain ⟨entry, later⟩ := List.forall_mem_cons.1 entered
    change (w.react (.click label)).notices.dialogs ++ ((w.react (.click label)).window.shown (clicks rest)).dialogs =
      []
    rw [ih later, react_click_entry w entry]
    rfl

theorem clean_spelled {labels : List String} (entered : ∀ label ∈ labels, label ∈ entries) :
    ∀ c ∈ (spelled labels).toList, Text.isBlank c = false ∧ c ≠ ',' := by
  intro c member
  rcases mem_spelled member with rfl | ⟨label, among, inLabel⟩
  · exact ⟨by decide, by decide⟩
  · exact clean_entries label (entered label among) c inLabel

/-- What labels spell asks for itself, as long as the last result is not among them. -/
theorem questionOf_spelled {labels : List String} {line : String} {numbers : OrderedMap String Float}
    (entered : ∀ label ∈ labels, label ∈ entries ∧ label ≠ "Ans") (reads : Assignment.readLine line = .ok numbers) :
    questionOf (spelled labels) line none = .ok ⟨spelled labels, CommandLine.bindings numbers⟩ := by
  have same := normalize_of_clean (clean_spelled fun label member => (entered label member).1)
  have noAnswer : ¬ answerName <:+: (spelled labels).toList := by
    intro within
    rcases mem_spelled (within.subset (List.mem_cons_self : 'A' ∈ answerName)) with zero | ⟨label, among, inLabel⟩
    · exact absurd zero (by decide)
    · exact no_capital_of_entries label (entered label among).1 (entered label among).2 inLabel
  rw [questionOf_of_no_answer (same.symm ▸ noAnswer), same, reads, String.ofList_toList]
  rfl

/-- A calculation that is started in an idle window and reports at once: the window receives its message. -/
theorem react_finish_of_ok {w : Window} {question : Question} {press : Action} (holds : Invariant w)
    (idle : w.busy = false) (asks : press ∈ .click "⏎" :: starts)
    (asked : questionOf w.formula w.assignments w.lastResult = .ok question) :
    w.react press = calm (w.launch question, .none) ∧
      (w.launch question).react (.finish 0) =
        calm ({ w.launch question with running := [] }.receive (.of question w.settings)) := by
  constructor
  · rw [react_press asks (holds.enter_iff.2 idle), start_of_ok idle asked]
  · have own : (w.launch question).settingsAt w.replaced.length = w.settings :=
      settingsAt_of_suffix (w := w.launch question) List.suffix_rfl
    change calm ((w.launch question).finish 0) = _
    unfold finish
    rw [holds.running_launch idle question]
    change calm (receive _ ((w.launch question).message ⟨question, w.replaced.length⟩)) = _
    rw [message, own]
    rfl

/-- The window conveys what a calculation came to: an answer is its last result and stands on the display, and
everything else is told in one message box. What is no failure of the expression is told as a crash. -/
inductive Conveys (w : Window) (dialogs : List Dialog) (problem : String) : Except Stop Answer → Prop
  | answer {answer : Answer} (known : w.lastResult = some answer.value)
      (displayed : w.display = w.resultLine problem answer) (quiet : dialogs = []) :
        Conveys w dialogs problem (.ok answer)
  | failure {cause : Failure} {equation : Option String} (unknown : w.lastResult = none)
      (told : dialogs = [w.failureBox { cause.report with equation }]) :
      Conveys w dialogs problem (.error (.failure cause equation))
  | crash {kind : Fault} (unknown : w.lastResult = none)
      (told : dialogs = [w.failureBox { (Failure.crash kind.detail).report with equation := some problem }]) :
      Conveys w dialogs problem (.error (.fault kind))

theorem conveys_receive {w : Window} (unknown : w.lastResult = none) (question : Question) (settings : Settings) :
    Conveys (w.receive (.of question settings)).1 (w.receive (.of question settings)).2.dialogs question.problem
      (calculate question.problem question.bindings settings) := by
  rw [Message.of, Finding.of]
  rcases calculate question.problem question.bindings settings with (⟨cause, equation⟩ | kind) | answer
  · exact .failure unknown rfl
  · exact .crash unknown rfl
  · exact .answer rfl rfl rfl

/-- An idle window that knows no last result conveys what the calculation comes to that it starts. -/
theorem conveys_start {w : Window} {question : Question} {press : Action} (holds : Invariant w)
    (idle : w.busy = false) (unknown : w.lastResult = none) (asks : press ∈ .click "⏎" :: starts)
    (asked : questionOf w.formula w.assignments w.lastResult = .ok question) :
    Conveys (w.after [press, .finish 0]) (w.shown [press, .finish 0]).dialogs question.problem
      (calculate question.problem question.bindings w.settings) := by
  obtain ⟨launches, reports⟩ := react_finish_of_ok holds idle asks asked
  simp only [after, shown, launches, calm, reports, append_none]
  exact conveys_receive (w := { w.launch question with running := [] }) unknown question w.settings

/-- Labels clicked in a new window, a line of assignments, a start and its report come to what the formula comes to that
the labels spell. Zeros in front are no part of it. -/
theorem conveys_spelled {file : FileContent} {w : Window} {notices : Notices} {labels : List String} {line : String}
    {numbers : OrderedMap String Float} {press : Action} (opened : new file = .ok (w, notices))
    (entered : ∀ label ∈ labels, label ∈ entries ∧ label ≠ "Ans") (pressed : labels ≠ [])
    (reads : Assignment.readLine line = .ok numbers) (asks : press ∈ .click "⏎" :: starts) :
    let actions := clicks labels ++ [.assign line, press, .finish 0]
    Conveys (w.after actions) (w.shown actions).dialogs (spelled labels)
      (calculate (spelled labels) (CommandLine.bindings numbers) w.settings) := by
  intro actions
  have onGrid : ∀ label ∈ labels, label ∈ entries := fun label member => (entered label member).1
  have holds := (invariant_new opened).after (clicks labels ++ [.assign line])
  obtain ⟨⟨settings, unread⟩, _, same⟩ := bind_eq_ok.1 opened
  cases same
  obtain ⟨history, typed⟩ := after_clicks (w := fresh settings file) (Or.inl rfl) onGrid pressed
  let ready : Window := { fresh settings file with
    formula := spelled labels, display := spelled labels, history, assignments := line }
  have isReady : (fresh settings file).after (clicks labels ++ [.assign line]) = ready := by
    rw [after_append, typed]
    rfl
  have quiet : ((fresh settings file).shown (clicks labels ++ [.assign line])).dialogs = [] := by
    rw [dialogs_shown_append, dialogs_shown_clicks onGrid]
    rfl
  have splits : actions = (clicks labels ++ [.assign line]) ++ [press, .finish 0] := by simp [actions]
  rw [isReady] at holds
  rw [splits, after_append, dialogs_shown_append, quiet, List.nil_append, isReady]
  have asked : questionOf ready.formula ready.assignments ready.lastResult =
      .ok ⟨spelled labels, CommandLine.bindings numbers⟩ := questionOf_spelled entered reads
  exact conveys_start holds rfl rfl asks asked

theorem conveys_spelled_padded :
    let w := fresh Settings.defaults none
    let labels := ["0", "0", "7", "*", "x"]
    let actions := clicks labels ++ [.assign "x = 1,5", .keyDown "Return", .finish 0]
    spelled labels = "7*x" ∧ ∃ numbers, Assignment.readLine "x = 1,5" = .ok numbers ∧ numbers.entries = [("x", 1.5)] ∧
      Conveys (w.after actions) (w.shown actions).dialogs (spelled labels)
        (calculate (spelled labels) (CommandLine.bindings numbers) w.settings) := by
  have reads : Assignment.readLine "x = 1,5" = .ok ⟨[("x", 1.5)]⟩ := Assignment.readLine_of_entries (by decide +kernel)
  have conveys :=
    conveys_spelled new_of_missing (by decide +kernel : ∀ label ∈ ["0", "0", "7", "*", "x"], _) (by decide)
    reads (by simp [starts] : Action.keyDown "Return" ∈ .click "⏎" :: starts)
  exact ⟨by decide +kernel, _, reads, rfl, conveys⟩

/-- A zero in front of an operator is lost, so what is typed is not always what is calculated. -/
theorem zero_factor_lost :
    let w := fresh Settings.defaults none
    let labels := ["0", "*", "5"]
    let actions := clicks labels ++ [.assign "", .click "⏎", .finish 0]
    let asTyped := calculate (String.join labels) (CommandLine.bindings .empty) w.settings
    Window.new none = .ok (w, ⟨[], Settings.readLog (some .missing)⟩) ∧
      (∀ label ∈ labels, label ∈ entries ∧ label ≠ "Ans") ∧
      asTyped.toOption.map (fun answer => (answer.text, answer.value)) = some ("= 0", 0.0) ∧
      (w.after actions).lastResult = none ∧
      (w.shown actions).dialogs.map Dialog.text = ["Error 3033: Illegal start of expression"] ∧
      ¬ Conveys (w.after actions) (w.shown actions).dialogs (String.join labels) asTyped := by
  intro w labels actions asTyped
  have comes : asTyped.toOption.map (fun answer => (answer.text, answer.value)) = some ("= 0", 0.0) := by decide +kernel
  have unknown : (w.after actions).lastResult = none := by decide +kernel
  refine ⟨new_of_missing, by decide +kernel, comes, unknown, by decide +kernel, fun conveys => ?_⟩
  cases came : asTyped with
  | ok answer =>
    rw [came] at conveys
    obtain ⟨known⟩ := conveys
    exact nomatch unknown.symm.trans known
  | error stop =>
    rw [came] at comes
    exact nomatch comes

end Reckoner.Window
