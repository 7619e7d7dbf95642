import Mathlib
import Reckoner.Proofs.Settling
import Reckoner.Window.Action

namespace Reckoner.Window

/-- What is not a report changes the calculator in one of these ways. -/
inductive Change (w : Window) : Window → Prop
  /-- The file, the assignments, the clipboard and the shift key are no part of the calculator. -/
  | aside (file : FileContent) (assignments : String) (shiftHeld shiftReported : Bool) (clipboard : Option String) :
      Change w { w with file, assignments, shiftHeld, shiftReported, clipboard }
  | reread (settings : Settings) : Change w { w with settings, replaced := w.readings }
  | edited (formula : String) : Change w (w.edit formula)
  | undone : Change w w.undo
  /-- A calculation is started in an idle window, on the settings at some place. -/
  | started {question : Question} (place : Nat) (idle : w.busy = false)
      (asked : questionOf w.formula w.assignments w.lastResult = .ok question) :
      Change w { w.await with running := w.running ++ [⟨question, place⟩] }

/-- Changes one after another. -/
abbrev Changes : Window → Window → Prop := Relation.ReflTransGen Change

theorem Change.refl (w : Window) : Change w w :=
  .aside w.file w.assignments w.shiftHeld w.shiftReported w.clipboard

theorem accept_of_busy {w : Window} (busy : w.busy = true) : w.accept = .error (w, ⟨[], [refusal]⟩) :=
  if_pos busy

theorem accept_of_idle {w : Window} (idle : w.busy = false) :
    w.accept = (questionOf w.formula w.assignments w.lastResult).mapError w.reportFailure :=
  if_neg (Bool.eq_false_iff.1 idle)

theorem accept_of_ok {w : Window} {question : Question} (idle : w.busy = false)
    (asked : questionOf w.formula w.assignments w.lastResult = .ok question) : w.accept = .ok question := by
  rw [accept_of_idle idle, asked]
  rfl

theorem accept_of_error {w : Window} {report : Report} (idle : w.busy = false)
    (asked : questionOf w.formula w.assignments w.lastResult = .error report) :
    w.accept = .error (w.reportFailure report) := by
  rw [accept_of_idle idle, asked]
  rfl

/-- A start is accepted in an idle window whose formula and assignments can be read. -/
theorem accept_eq_ok {w : Window} {question : Question} : w.accept = .ok question ↔
    w.busy = false ∧ questionOf w.formula w.assignments w.lastResult = .ok question := by
  cases busy : w.busy with
  | true =>
    rw [accept_of_busy busy]
    exact ⟨nofun, nofun⟩
  | false =>
    rw [accept_of_idle busy, mapError_eq_ok]
    exact ⟨fun asked => ⟨rfl, asked⟩, And.right⟩

/-- A start that is not accepted changes nothing. -/
theorem eq_of_accept_error {w : Window} {refused : Window × Notices} (refuses : w.accept = .error refused) :
    refused.1 = w := by
  unfold accept at refuses
  split_ifs at refuses
  · cases refuses
    rfl
  · obtain ⟨report, _, rfl⟩ := mapError_eq_error.1 refuses
    rfl

theorem start_of_busy {w : Window} (busy : w.busy = true) : w.start = (w, ⟨[], [refusal]⟩) := by
  rw [start, accept_of_busy busy]

theorem start_of_ok {w : Window} {question : Question} (idle : w.busy = false)
    (asked : questionOf w.formula w.assignments w.lastResult = .ok question) :
    w.start = (w.launch question, .none) := by
  rw [start, accept_of_ok idle asked]

theorem start_of_error {w : Window} {report : Report} (idle : w.busy = false)
    (asked : questionOf w.formula w.assignments w.lastResult = .error report) :
    w.start = w.reportFailure report := by
  rw [start, accept_of_error idle asked]

theorem change_start (w : Window) : Change w w.start.1 := by
  unfold start
  cases accepts : w.accept with
  | ok question =>
    obtain ⟨idle, asked⟩ := accept_eq_ok.1 accepts
    exact .started w.replaced.length idle asked
  | error refused =>
    rw [eq_of_accept_error accepts]
    exact .refl w

theorem change_enter (w : Window) (value : String) : Change w (w.enter value).1 := by
  unfold enter
  split_ifs
  · exact .edited _
  · exact .edited _
  · exact .undone
  · exact .aside w.file w.assignments w.shiftHeld w.shiftReported _
  · exact change_start w
  · exact .edited _

theorem changes_enterAll (w : Window) (values : List String) : Changes w (w.enterAll values).1 := by
  induction values generalizing w with
  | nil => exact .refl
  | cons value rest ih => exact .head (change_enter w value) (ih _)

theorem change_close (w : Window) (form : Form) (closing : Closing) : Change w (w.close form closing).1 := by
  cases closing with
  | cancel => exact .refl w
  | ok => exact .aside _ w.assignments w.shiftHeld w.shiftReported w.clipboard
  | failing failure => exact .aside _ w.assignments w.shiftHeld w.shiftReported w.clipboard

theorem change_reload {w loaded : Window} {notices : Notices} (reads : w.reload = .ok (loaded, notices)) :
    Change w loaded := by
  obtain ⟨⟨settings, unread⟩, _, same⟩ := bind_eq_ok.1 reads
  cases same
  exact .reread settings

theorem changes_leave (w : Window) (opened changed : Form) (closing : Closing) (seen : Notices) :
    Changes w (w.leave opened changed closing seen).window := by
  have closes := change_close w changed closing
  unfold leave
  dsimp only
  split
  · exact .single closes
  · split
    · exact .single closes
    · rename_i reads
      exact .head closes (.single (change_reload reads))

theorem changes_configure (w : Window) (edits : List (String × Value)) (closing : Closing) :
    Changes w (w.configure edits closing).window := by
  unfold configure
  split
  · exact .refl
  · dsimp only
    split
    · exact .refl
    · split
      · exact .refl
      · exact changes_leave w _ _ closing _

theorem undo_with_running (w : Window) (running : List Job) : undo { w with running } = { w.undo with running } := by
  unfold undo
  dsimp only
  split <;> rfl

/-- While the window is busy a change starts nothing, and so the calculations that are running play no part in it. -/
theorem Change.with_running {w next : Window} (changed : Change w next) (busy : w.busy = true) (running : List Job) :
    Change { w with running } { next with running } := by
  cases changed with
  | aside file assignments shiftHeld shiftReported clipboard =>
    exact .aside file assignments shiftHeld shiftReported clipboard
  | reread settings => exact .reread settings
  | edited formula => exact .edited formula
  | undone =>
    rw [← undo_with_running]
    exact .undone
  | started place idle => exact absurd busy (Bool.eq_false_iff.1 idle)

theorem Change.of_busy {w next : Window} (changed : Change w next) (busy : w.busy = true) :
    next.busy = true ∧ next.running = w.running := by
  cases changed with
  | aside | reread | edited => exact ⟨busy, rfl⟩
  | undone =>
    unfold undo
    split <;> exact ⟨busy, rfl⟩
  | started place idle => exact absurd busy (Bool.eq_false_iff.1 idle)

/-- While the window is busy no change starts a calculation. -/
theorem Changes.of_busy {w next : Window} (changed : Changes w next) (busy : w.busy = true) :
    next.busy = true ∧ next.running = w.running := by
  induction changed with
  | refl => exact ⟨busy, rfl⟩
  | tail _ changed ih =>
    obtain ⟨still, same⟩ := changed.of_busy ih.1
    exact ⟨still, same.trans ih.2⟩

theorem Changes.with_running {w next : Window} (changed : Changes w next) (busy : w.busy = true) (running : List Job) :
    Changes { w with running } { next with running } := by
  induction changed with
  | refl => exact .refl
  | tail before changed ih => exact ih.tail (changed.with_running (Changes.of_busy before busy).1 running)

/-- An action is a report, a start amid waiting actions, or a row of changes. -/
theorem changes_react_or (w : Window) (action : Action) : (∃ place, action = .finish place) ∨
    (∃ waiting, action = .startAmid waiting) ∨ Changes w (w.react action).window := by
  cases action with
  | finish place => exact Or.inl ⟨place, rfl⟩
  | startAmid waiting => exact Or.inr (Or.inl ⟨waiting, rfl⟩)
  | click label =>
    simp only [react]
    split_ifs
    · exact Or.inr (Or.inr (changes_configure w [] .cancel))
    · exact Or.inr (Or.inr .refl)
    · exact Or.inr (Or.inr (.single (change_enter w label)))
    · exact Or.inr (Or.inr .refl)
  | enter values => exact Or.inr (Or.inr (changes_enterAll w values))
  | keyDown key =>
    simp only [react]
    split_ifs
    · exact Or.inr (Or.inr (.single (.aside w.file w.assignments true w.shiftReported w.clipboard)))
    · exact Or.inr (Or.inr (.single (change_start w)))
    · exact Or.inr (Or.inr .refl)
  | keyUp key =>
    simp only [react]
    split_ifs
    · exact Or.inr (Or.inr (.single (.aside w.file w.assignments false w.shiftReported w.clipboard)))
    · exact Or.inr (Or.inr .refl)
  | shift pressed => exact Or.inr (Or.inr (.single (.aside w.file w.assignments w.shiftHeld pressed w.clipboard)))
  | assign text => exact Or.inr (Or.inr (.single (.aside w.file text w.shiftHeld w.shiftReported w.clipboard)))
  | configure edits closing => exact Or.inr (Or.inr (changes_configure w edits closing))

theorem handle_eq (w : Window) (actions : List Action) : w.handle actions = (w.after actions, w.shown actions) := by
  induction actions generalizing w with
  | nil => rfl
  | cons action rest ih =>
    rw [handle, ih]
    rfl

theorem react_startAmid_of_error {w : Window} {refused : Window × Notices} (refuses : w.accept = .error refused)
    (waiting : List Action) : w.react (.startAmid waiting) = calm refused := by
  rw [react, refuses]

theorem react_startAmid_of_ok {w : Window} {question : Question} (accepts : w.accept = .ok question)
    (waiting : List Action) :
    w.react (.startAmid waiting) = calm ((w.await.after waiting).employ question, w.await.shown waiting) := by
  rw [react, accepts]
  dsimp only
  rw [handle_eq]

/-- Without a calculation to report, whatever a busy window handles is a row of changes. -/
theorem changes_react_of_waiting {w : Window} (busy : w.busy = true) (none : w.running = []) (action : Action) :
    Changes w (w.react action).window := by
  rcases changes_react_or w action with ⟨place, rfl⟩ | ⟨waiting, rfl⟩ | changed
  · have idles : w.finish place = (w, .none) := by rw [finish, none, List.getElem?_nil]
    rw [react, idles]
    exact .refl
  · rw [react_startAmid_of_error (accept_of_busy busy)]
    exact .refl
  · exact changed

theorem changes_after_of_waiting {w : Window} (busy : w.busy = true) (none : w.running = []) (waiting : List Action) :
    Changes w (w.after waiting) := by
  induction waiting generalizing w with
  | nil => exact .refl
  | cons action rest ih =>
    have first := changes_react_of_waiting busy none action
    obtain ⟨still, same⟩ := first.of_busy busy
    exact first.trans (ih still (same.trans none))

/-- An action is a report, or a row of changes. What waits during a start changes the window that is busy with it, and
the calculation is made on the settings that are there then. -/
theorem changes_react {w : Window} {action : Action} (other : ∀ place, action ≠ .finish place)
    (quiet : w.busy = false → w.running = []) : Changes w (w.react action).window := by
  rcases changes_react_or w action with ⟨place, rfl⟩ | ⟨waiting, rfl⟩ | changed
  · exact absurd rfl (other place)
  · cases accepts : w.accept with
    | error refused =>
      rw [react_startAmid_of_error accepts]
      exact eq_of_accept_error accepts ▸ .refl
    | ok question =>
      obtain ⟨idle, asked⟩ := accept_eq_ok.1 accepts
      have handled := changes_after_of_waiting (w := w.await) rfl (quiet idle) waiting
      rw [react_startAmid_of_ok accepts]
      refine .head (.started (w.await.after waiting).replaced.length idle asked) ?_
      change Changes _ (employ (w.await.after waiting) question)
      rw [employ, (handled.of_busy rfl).2]
      exact handled.with_running rfl _
  · exact changed

theorem append_none (notices : Notices) : notices ++ Notices.none = notices := by
  obtain ⟨dialogs, log⟩ := notices
  change (⟨dialogs ++ [], log ++ []⟩ : Notices) = _
  rw [List.append_nil, List.append_nil]

theorem after_append (w : Window) (first second : List Action) :
    w.after (first ++ second) = (w.after first).after second := by
  induction first generalizing w with
  | nil => rfl
  | cons action rest ih => exact ih _

theorem dialogs_shown_append (w : Window) (first second : List Action) :
    (w.shown (first ++ second)).dialogs = (w.shown first).dialogs ++ ((w.after first).shown second).dialogs := by
  induction first generalizing w with
  | nil => rfl
  | cons action rest ih =>
    change (w.react action).notices.dialogs ++ ((w.react action).window.shown (rest ++ second)).dialogs =
      ((w.react action).notices.dialogs ++ ((w.react action).window.shown rest).dialogs) ++ _
    rw [ih, List.append_assoc]
    rfl

/-- What asks for a start besides a click: the value of the enter button, and two keys. -/
def starts : List Action := [.enter ["⏎"], .keyDown "Return", .keyDown "Enter"]

theorem enter_start (w : Window) : w.enter "⏎" = w.start := by
  simp [enter]

theorem react_start (w : Window) {press : Action} (asks : press ∈ starts) : w.react press = calm w.start := by
  simp only [starts, List.mem_cons, List.not_mem_nil, or_false] at asks
  rcases asks with rfl | rfl | rfl
  · simp only [react, enterAll, enter_start, append_none]
  · simp [react]
  · simp [react]

theorem react_click_start (w : Window) :
    w.react (.click "⏎") = if w.enterEnabled then calm w.start else calm (w, .none) := by
  cases enabled : w.enterEnabled <;> simp [react, enabled, labels, enter_start]

/-- While the button takes clicks, everything that asks for a start starts. -/
theorem react_press {w : Window} {press : Action} (asks : press ∈ .click "⏎" :: starts)
    (enabled : w.enterEnabled = true) :
    w.react press = calm w.start := by
  rcases List.mem_cons.1 asks with rfl | other
  · rw [react_click_start, if_pos enabled]
  · exact react_start w other

/-- An action asks for a start, and others wait that are handled before the calculation is made. -/
inductive Asks : Action → List Action → Prop
  | free {press : Action} (asks : press ∈ .click "⏎" :: starts) : Asks press []
  | amid (waiting : List Action) : Asks (.startAmid waiting) waiting

/-- A start that is accepted makes the calculation in the busy window, after the actions that wait. -/
theorem react_asks_of_ok {w : Window} {press : Action} {waiting : List Action} {question : Question}
    (asks : Asks press waiting) (enabled : w.enterEnabled = true) (accepts : w.accept = .ok question) :
    w.react press = calm ((w.await.after waiting).employ question, w.await.shown waiting) := by
  cases asks with
  | free asks =>
    rw [react_press asks enabled, start, accepts]
    rfl
  | amid waiting => exact react_startAmid_of_ok accepts waiting

/-- A start that is not accepted lets the actions that wait come by themselves. -/
theorem react_asks_of_error {w : Window} {press : Action} {waiting : List Action} {refused : Window × Notices}
    (asks : Asks press waiting) (enabled : w.enterEnabled = true) (refuses : w.accept = .error refused) :
    w.react press = calm refused := by
  cases asks with
  | free asks => rw [react_press asks enabled, start, refuses]
  | amid waiting => exact react_startAmid_of_error refuses waiting

end Reckoner.Window
