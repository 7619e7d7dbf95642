import Reckoner.Proofs.Window.Change

namespace Reckoner.Window

/-- What holds between the parts of a window at any time. -/
structure Invariant (w : Window) : Prop where
  first_text : w.undoList.head? = some blank
  busy_iff : w.busy = true ↔ ∃ job, w.running = [job]
  at_most_one : w.running.length ≤ 1
  enter_iff : w.enterEnabled = true ↔ w.busy = false
  shown_idle : w.busy = false → w.display = w.formula ∨ w.undoList.getLast? = some w.display
  shown_busy : w.busy = true → w.display = waitingText ∨ w.display = w.formula

theorem head?_undoList (w : Window) : w.undoList.head? = w.history.getLast? := List.head?_reverse

theorem getLast?_undoList (w : Window) : w.undoList.getLast? = w.history.head? := List.getLast?_reverse

theorem invariant_fresh (settings : Settings) (file : FileContent) : Invariant (fresh settings file) where
  first_text := rfl
  busy_iff := ⟨nofun, nofun⟩
  at_most_one := Nat.zero_le 1
  enter_iff := ⟨fun _ => rfl, fun _ => rfl⟩
  shown_idle _ := Or.inl rfl
  shown_busy := nofun

namespace Invariant

variable {w : Window}

theorem running_of_idle (holds : Invariant w) (idle : w.busy = false) : w.running = [] := by
  have short := holds.at_most_one
  have apart := mt holds.busy_iff.2 (Bool.eq_false_iff.1 idle)
  match running : w.running with
  | [] => rfl
  | [job] => exact absurd ⟨job, running⟩ apart
  | _ :: _ :: _ =>
    rw [running] at short
    simp at short

theorem running_launch (holds : Invariant w) (idle : w.busy = false) (question : Question) :
    (w.launch question).running = [⟨question, w.replaced.length⟩] := by
  change w.running ++ [⟨question, w.replaced.length⟩] = _
  rw [holds.running_of_idle idle, List.nil_append]

theorem getLast?_cons (holds : Invariant w) (text : String) : (text :: w.history).getLast? = some blank := by
  have first := holds.first_text
  rw [head?_undoList] at first
  rw [List.getLast?_cons, first]
  rfl

theorem edit (holds : Invariant w) (formula : String) : Invariant (w.edit formula) where
  first_text := (head?_undoList _).trans (holds.getLast?_cons formula)
  busy_iff := holds.busy_iff
  at_most_one := holds.at_most_one
  enter_iff := holds.enter_iff
  shown_idle _ := Or.inl rfl
  shown_busy _ := Or.inr rfl

/-- Going back leaves the oldest text where it is. -/
theorem undo (holds : Invariant w) : Invariant w.undo := by
  have first := holds.first_text
  rw [head?_undoList] at first
  unfold Window.undo
  split
  · rename_i shown formula rest same
    rw [same, List.getLast?_cons_cons] at first
    exact ⟨(head?_undoList _).trans first, holds.busy_iff, holds.at_most_one, holds.enter_iff, fun _ => Or.inl rfl,
      fun _ => Or.inr rfl⟩
  · exact ⟨holds.first_text, holds.busy_iff, holds.at_most_one, holds.enter_iff, fun _ => Or.inl rfl,
      fun _ => Or.inr rfl⟩

theorem change {next : Window} (holds : Invariant w) (changed : Change w next) : Invariant next := by
  cases changed with
  | aside | reread =>
    exact ⟨holds.first_text, holds.busy_iff, holds.at_most_one, holds.enter_iff, holds.shown_idle, holds.shown_busy⟩
  | edited formula => exact holds.edit formula
  | undone => exact holds.undo
  | @started question place idle asked =>
    have alone : w.running ++ [⟨question, place⟩] = [⟨question, place⟩] := by
      rw [holds.running_of_idle idle, List.nil_append]
    exact
      { first_text := holds.first_text
        busy_iff := ⟨fun _ => ⟨_, alone⟩, fun _ => rfl⟩
        at_most_one := (congrArg List.length alone).le
        enter_iff := ⟨nofun, nofun⟩
        shown_idle := nofun
        shown_busy := fun _ => Or.inl rfl }

theorem changes {next : Window} (holds : Invariant w) (changed : Changes w next) : Invariant next := by
  induction changed with
  | refl => exact holds
  | tail _ changed ih => exact ih.change changed

/-- The only calculation that can report is the one that is running. -/
theorem eraseIdx_running (holds : Invariant w) {place : Nat} {job : Job} (found : w.running[place]? = some job) :
    w.running.eraseIdx place = [] := by
  have short := holds.at_most_one
  obtain ⟨within, _⟩ := List.getElem?_eq_some_iff.1 found
  rw [← List.length_eq_zero_iff, List.length_eraseIdx_of_lt within]
  omega

theorem receive (holds : Invariant w) (message : Message) :
    Invariant ({ w with running := [] }.receive message).1 := by
  unfold Window.receive
  cases message.finding with
  | answer answer =>
    exact
      { first_text := (head?_undoList _).trans (holds.getLast?_cons _)
        busy_iff := ⟨nofun, nofun⟩
        at_most_one := Nat.zero_le 1
        enter_iff := ⟨fun _ => rfl, fun _ => rfl⟩
        shown_idle := fun _ => Or.inr (getLast?_undoList _)
        shown_busy := nofun }
  | failure report | crash report =>
    exact
      { first_text := holds.first_text
        busy_iff := ⟨nofun, nofun⟩
        at_most_one := Nat.zero_le 1
        enter_iff := ⟨fun _ => rfl, fun _ => rfl⟩
        shown_idle := fun _ => Or.inl rfl
        shown_busy := nofun }

theorem finish (holds : Invariant w) (place : Nat) : Invariant (w.finish place).1 := by
  unfold Window.finish
  split
  · exact holds
  · rename_i job found
    rw [holds.eraseIdx_running found]
    exact holds.receive (w.message job)

theorem react (holds : Invariant w) (action : Action) : Invariant (w.react action).window := by
  by_cases other : ∀ place, action ≠ .finish place
  · exact holds.changes (changes_react other holds.running_of_idle)
  · obtain ⟨place, same⟩ := not_forall.1 other
    rw [not_not.1 same]
    exact holds.finish place

theorem after (holds : Invariant w) (actions : List Action) : Invariant (w.after actions) := by
  induction actions generalizing w with
  | nil => exact holds
  | cons action rest ih => exact ih (holds.react action)

end Invariant

theorem invariant_new {file : FileContent} {w : Window} {notices : Notices} (opened : new file = .ok (w, notices)) :
    Invariant w := by
  obtain ⟨⟨settings, unread⟩, _, same⟩ := bind_eq_ok.1 opened
  cases same
  exact invariant_fresh settings file

/-- Without a settings file a new window has the default settings. -/
theorem new_of_missing :
    Window.new none = .ok (fresh Settings.defaults none, ⟨[], Settings.readLog (some .missing)⟩) := rfl

/-- Whatever happens to a new window, its parts stay in step, and while it is busy a further start is refused: it adds
a line to the log and changes nothing, and a click on the button does not even that. -/
theorem invariant_after {file : FileContent} {w : Window} {notices : Notices} (opened : new file = .ok (w, notices))
    (actions : List Action) :
    Invariant (w.after actions) ∧
      ((w.after actions).busy = true →
        (∀ press ∈ starts, (w.after actions).react press = ⟨w.after actions, ⟨[], [refusal]⟩, none, none⟩) ∧
        (∀ waiting, (w.after actions).react (.startAmid waiting) = ⟨w.after actions, ⟨[], [refusal]⟩, none, none⟩) ∧
        (w.after actions).react (.click "⏎") = ⟨w.after actions, .none, none, none⟩) := by
  have holds := (invariant_new opened).after actions
  refine ⟨holds, fun busy => ⟨fun press asks => ?_, fun waiting => ?_, ?_⟩⟩
  · rw [react_start _ asks, start_of_busy busy]
    rfl
  · rw [react_startAmid_of_error (accept_of_busy busy)]
    rfl
  · have disabled : (w.after actions).enterEnabled = false :=
      Bool.eq_false_iff.2 fun enabled => Bool.eq_false_iff.1 (holds.enter_iff.1 enabled) busy
    rw [react_click_start, disabled]
    rfl

theorem invariant_during_quotient :
    let w := (fresh Settings.defaults none).after [.enter ["1", "/", "0"], .keyDown "Return", .enter ["7"]]
    w.busy = true ∧ Invariant w ∧ w.react (.enter ["⏎"]) = ⟨w, ⟨[], [refusal]⟩, none, none⟩ := by
  have opened : Window.new none = .ok (fresh Settings.defaults none, ⟨[], Settings.readLog (some .missing)⟩) := rfl
  obtain ⟨holds, refuses⟩ := invariant_after opened [.enter ["1", "/", "0"], .keyDown "Return", .enter ["7"]]
  have busy : ((fresh Settings.defaults none).after [.enter ["1", "/", "0"], .keyDown "Return", .enter ["7"]]).busy =
      true := by decide +kernel
  exact ⟨busy, holds, (refuses busy).1 _ List.mem_cons_self⟩

end Reckoner.Window
