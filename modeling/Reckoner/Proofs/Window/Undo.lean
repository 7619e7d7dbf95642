import Mathlib
import Reckoner.Proofs.Window.Keypad

namespace Reckoner.Window

/-- The labels whose clicks edit the formula. -/
def editLabels : List String := "<" :: "C" :: entries

theorem react_click_edit (w : Window) {label : String} (edits : label ∈ editLabels) :
    ∃ formula, w.react (.click label) = calm (w.edit formula, .none) := by
  simp only [editLabels, List.mem_cons] at edits
  rcases edits with rfl | rfl | entry
  · exact ⟨_, rfl⟩
  · exact ⟨_, rfl⟩
  · exact ⟨_, react_click_entry w entry⟩

theorem react_click_undo (w : Window) : w.react (.click "↶") = calm (w.undo, .none) := rfl

/-- Going back over an edit leads to the text that was remembered before it. -/
theorem undo_edit {w : Window} (remembered : w.history ≠ []) (formula : String) :
    (w.edit formula).undo = { w with formula := w.top, display := w.top } := by
  obtain ⟨last, rest, same⟩ := List.exists_cons_of_ne_nil remembered
  simp only [undo, edit, top, same, List.headD_cons]

theorem Invariant.history_ne_nil {w : Window} (holds : Invariant w) : w.history ≠ [] := by
  intro none
  have first := holds.first_text
  rw [head?_undoList, none] at first
  exact nomatch first

/-- A change makes the formula the text remembered last, or leaves both the formula and the texts as they were. -/
theorem Change.top_or_kept {w next : Window} (changed : Change w next) :
    next.formula = next.top ∨ next.formula = w.formula ∧ next.history = w.history := by
  cases changed with
  | aside | reread | started => exact Or.inr ⟨rfl, rfl⟩
  | edited => exact Or.inl rfl
  | undone =>
    unfold undo
    split
    · exact Or.inl rfl
    · exact Or.inr ⟨rfl, rfl⟩

theorem Changes.top_or_kept {w next : Window} (changed : Changes w next) :
    next.formula = next.top ∨ next.formula = w.formula ∧ next.history = w.history := by
  induction changed with
  | refl => exact Or.inr ⟨rfl, rfl⟩
  | tail _ changed ih =>
    rcases changed.top_or_kept with atTop | ⟨formula, history⟩
    · exact Or.inl atTop
    · rw [top, formula, history]
      exact ih

/-- The text remembered last is the line of a result that came during the actions, and the formula is still the one that
it found. -/
def ResultOnTop (w : Window) (actions : List Action) : Prop :=
  ∃ earlier place later problem answer, actions = earlier ++ .finish place :: later ∧
    (w.after earlier).messages [.finish place] = [⟨.answer answer, problem⟩] ∧
    (w.after actions).formula = (w.after earlier).formula ∧
    (w.after actions).history = (w.after earlier).resultLine problem answer :: (w.after earlier).history

theorem ResultOnTop.concat {w : Window} {actions : List Action} {action : Action} (result : ResultOnTop w actions)
    (formula : (w.after (actions ++ [action])).formula = (w.after actions).formula)
    (history : (w.after (actions ++ [action])).history = (w.after actions).history) :
    ResultOnTop w (actions ++ [action]) := by
  obtain ⟨earlier, place, later, problem, answer, splits, told, sameFormula, sameHistory⟩ := result
  refine ⟨earlier, place, later ++ [action], problem, answer, ?_, told, formula.trans sameFormula,
    history.trans sameHistory⟩
  rw [splits, List.append_assoc, List.cons_append]

/-- A report makes its result the text remembered last, or leaves both the formula and the texts as they were. -/
theorem finish_result_or_kept (w : Window) (place : Nat) :
    (∃ problem answer, w.messages [.finish place] = [⟨.answer answer, problem⟩] ∧
      (w.finish place).1.formula = w.formula ∧ (w.finish place).1.history = w.resultLine problem answer :: w.history) ∨
    (w.finish place).1.formula = w.formula ∧ (w.finish place).1.history = w.history := by
  have told : w.messages [.finish place] = (w.running[place]?.map w.message).toList := by
    rw [messages, delivered, delivering, delivered, List.append_nil]
    cases w.running[place]? <;> rfl
  rw [told]
  unfold finish
  cases w.running[place]? with
  | none => exact Or.inr ⟨rfl, rfl⟩
  | some job =>
    simp only [Option.map_some, Option.toList_some, receive]
    rcases w.message job with ⟨answer | report | report, problem⟩
    · exact Or.inl ⟨problem, answer, rfl, rfl, rfl⟩
    · exact Or.inr ⟨rfl, rfl⟩
    · exact Or.inr ⟨rfl, rfl⟩

/-- In a run of a new window the formula is the text remembered last, unless a result came since the last edit. A result
that came stays in front of what comes later. -/
theorem formula_eq_top_or_result {file : FileContent} {new : Window} {notices : Notices}
    (opened : Window.new file = .ok (new, notices)) (actions : List Action) :
    (new.after actions).formula = (new.after actions).top ∨ ResultOnTop new actions := by
  induction actions using List.reverseRecOn with
  | nil =>
    obtain ⟨⟨settings, unread⟩, _, same⟩ := bind_eq_ok.1 opened
    cases same
    exact Or.inl rfl
  | append_singleton actions action ih =>
    have holds := (invariant_new opened).after actions
    have step : new.after (actions ++ [action]) = ((new.after actions).react action).window := after_append _ _ _
    have goesOn (formula : ((new.after actions).react action).window.formula = (new.after actions).formula)
        (history : ((new.after actions).react action).window.history = (new.after actions).history) :
        (new.after (actions ++ [action])).formula = (new.after (actions ++ [action])).top ∨
          ResultOnTop new (actions ++ [action]) := by
      rw [← step] at formula history
      rcases ih with atTop | result
      · rw [top, formula, history]
        exact Or.inl atTop
      · exact Or.inr (result.concat formula history)
    by_cases other : ∀ place, action ≠ .finish place
    · rcases (changes_react other holds.running_of_idle).top_or_kept with atTop | ⟨formula, history⟩
      · exact Or.inl (step ▸ atTop)
      · exact goesOn formula history
    · obtain ⟨place, same⟩ := not_forall.1 other
      obtain rfl := not_not.1 same
      rcases finish_result_or_kept (new.after actions) place with
        ⟨problem, answer, told, formula, history⟩ | ⟨formula, history⟩
      · refine Or.inr ⟨actions, place, [], problem, answer, rfl, told, ?_, ?_⟩
        · rw [step]
          exact formula
        · rw [step]
          exact history
      · exact goesOn formula history

/-- Consider a reachable idle window, an edit by a click, and a step back. The step leads to the text that was
remembered last before the edit, as the formula and on the display, and leaves everything else as it was before the
edit. So the edit is taken back exactly if that text was the formula, which it is unless a result came since. -/
theorem undo_after_edit {file : FileContent} {new : Window} {notices : Notices} {before : List Action} {label : String}
    (opened : Window.new file = .ok (new, notices)) (idle : (new.after before).busy = false)
    (edits : label ∈ editLabels) :
    let w := new.after before
    let undone := w.after [.click label, .click "↶"]
    undone = { w with formula := w.top, display := w.top } ∧
      (undone.formula = w.formula ∧ undone.display = w.display ↔ w.formula = w.top) ∧
      (w.formula = w.top ∨ ResultOnTop new before) := by
  intro w undone
  have holds : Invariant w := (invariant_new opened).after before
  obtain ⟨formula, edited⟩ := react_click_edit w edits
  have back : undone = { w with formula := w.top, display := w.top } := by
    change ((w.react (.click label)).window.react (.click "↶")).window = _
    rw [edited, react_click_undo]
    exact undo_edit holds.history_ne_nil formula
  refine ⟨back, ?_, formula_eq_top_or_result opened before⟩
  rw [back]
  constructor
  · rintro ⟨same, _⟩
    exact same.symm
  · intro atTop
    refine ⟨atTop.symm, ?_⟩
    rcases holds.shown_idle idle with shown | last
    · exact atTop.symm.trans shown.symm
    · rw [getLast?_undoList] at last
      change w.top = w.display
      rw [top, List.headD_eq_head?_getD, last]
      rfl

/-- After a failure the formula is the text remembered last again, and an edit of it is taken back. -/
theorem undo_after_failure :
    let w := (fresh Settings.defaults none).after [.enter ["1", "/", "0"], .keyDown "Enter", .finish 0]
    let undone := w.after [.click "C", .click "↶"]
    w.formula = w.top ∧ undone.formula = w.formula ∧ undone.display = w.display := by
  obtain ⟨_, restores, _⟩ := @undo_after_edit _ _ _ [.enter ["1", "/", "0"], .keyDown "Enter", .finish 0] "C"
    new_of_missing (by decide +kernel) (by decide +kernel)
  have atTop : ((fresh Settings.defaults none).after [.enter ["1", "/", "0"], .keyDown "Enter", .finish 0]).formula =
      ((fresh Settings.defaults none).after [.enter ["1", "/", "0"], .keyDown "Enter", .finish 0]).top := by
    decide +kernel
  exact ⟨atTop, restores.2 atTop⟩

/-- After a result, an edit and a step back, the line of the result is the formula. -/
theorem undo_after_result :
    let w := (fresh Settings.defaults none).after [.enter ["1", "+", "2"], .keyDown "Enter", .finish 0]
    let undone := w.after [.click "4", .click "↶"]
    Window.new none = .ok (fresh Settings.defaults none, ⟨[], Settings.readLog (some .missing)⟩) ∧
      w.busy = false ∧ "4" ∈ editLabels ∧ w.formula = "1+2" ∧ w.display = "1+2 = 3" ∧
      undone.formula = "1+2 = 3" ∧ undone.display = "1+2 = 3" := by
  refine ⟨new_of_missing, ?_⟩
  decide +kernel

end Reckoner.Window
