import Reckoner.Window.State

namespace Reckoner

/-- How the settings form is closed. -/
inductive Closing where
  | ok
  | cancel
  /-- With OK, while the settings do not get into their file. -/
  | failing (failure : WriteFailure)
deriving DecidableEq

inductive Action where
  | click (label : String)
  | enter (values : List String)
  | keyDown (key : String)
  | keyUp (key : String)
  | shift (pressed : Bool)
  | assign (text : String)
  /-- The running calculation at a place, counted from the oldest, finishes and reports. -/
  | finish (place : Nat)
  /-- The settings form is opened, its fields are set, and it is closed. -/
  | configure (edits : List (String × Value)) (closing : Closing)
  /-- A key asks for a start while other actions wait. They are handled as soon as the window is busy, before the
  calculation is made. A start that is not accepted handles none of them: they come by themselves, later. -/
  | startAmid (waiting : List Action)

namespace Action

end Action

structure FormVisit where
  form : Form
  /-- Whether the form was accepted, or none if it could not save. -/
  accepted : Option Bool

/-- What an action leads to. A fault leaves the window as it was when the fault arose. -/
structure Reaction where
  window : Window
  notices : Notices
  visit : Option FormVisit
  fault : Option Fault

namespace Window

/-- The labels of the buttons, row by row. -/
def labels : List String :=
  ["⚙", "📋", "↶", "<", "C",
   "sin", "cos", "tan", "atan", "/",
   "log10", "log2", "sqrt", "^", "*",
   "(", "7", "8", "9", "-",
   ")", "4", "5", "6", "+",
   "x", "1", "2", "3", "y",
   "Ans", "E", "0", ".", "⏎"]

/-- The labels of the buttons that do something other than add their label to the formula. -/
def controls : List String := ["⚙", "📋", "↶", "<", "C", "⏎"]

def unsavedText : String :=
  "Error 5001: " ++ (catalogueMessage? "5001").getD "" ++ Settings.fileName

/-- Closes a settings form with its fields set: the window with what is then in the file, and what the user sees and
whether the form was accepted. Only OK writes to the file. -/
def close (w : Window) (form : Form) : Closing → Window × Except Fault (Notices × Option Bool)
  | .cancel => (w, .ok (.none, some false))
  | .ok => ({ w with file := form.result.stored w.file none }, form.result.save.map fun _ => (.none, some true))
  | .failing failure =>
    ({ w with file := form.result.stored w.file (some failure) },
      .ok (⟨[⟨"Error", unsavedText, none⟩], [Settings.unsavedWarning failure, unsavedText]⟩, none))

/-- Reads the settings anew. Those read before stay as they are for the calculations that use them. -/
def reload (w : Window) : Except Fault (Window × Notices) := do
  let (settings, unread) ← Settings.load w.file
  return ({ w with settings, replaced := w.readings }, ⟨[], Settings.readLog unread⟩)

/-- Closes a form that was opened and had its fields set, and takes the settings that are then in the file. -/
def leave (w : Window) (opened changed : Form) (closing : Closing) (seen : Notices) : Reaction :=
  let (w, closed) := w.close changed closing
  match closed with
  | .error fault => ⟨w, seen, none, some fault⟩
  | .ok (notices, accepted) =>
    match w.reload with
    | .error fault => ⟨w, seen ++ notices, none, some fault⟩
    | .ok (w, reread) => ⟨w, seen ++ notices ++ reread, some ⟨opened, accepted⟩, none⟩

/-- Opens the settings form on the settings in the file, sets fields, and leaves it. -/
def configure (w : Window) (edits : List (String × Value)) (closing : Closing) : Reaction :=
  match Settings.load w.file with
  | .error fault => ⟨w, .none, none, some fault⟩
  | .ok (settings, unread) =>
    let seen : Notices := ⟨[], Settings.readLog unread⟩
    match Form.fill settings with
    | .error fault => ⟨w, seen, none, some fault⟩
    | .ok form =>
      match form.setAll edits with
      | .error fault => ⟨w, seen, none, some fault⟩
      | .ok changed => w.leave form changed closing seen

def enterAll (w : Window) : List String → Window × Notices
  | [] => (w, .none)
  | value :: rest =>
    let (next, first) := w.enter value
    let (last, others) := next.enterAll rest
    (last, first ++ others)

/-- The reaction to a change that cannot break anything. -/
def calm (change : Window × Notices) : Reaction := ⟨change.1, change.2, none, none⟩

mutual

/-- What the window does when something happens to it. -/
def react (w : Window) : Action → Reaction
  | .click label =>
    if label = "⚙" then { w.configure [] .cancel with visit := none }
    else if label = "⏎" ∧ !w.enterEnabled then calm (w, .none)
    else if labels.contains label then calm (w.enter label)
    else calm (w, .none)
  | .enter values => calm (w.enterAll values)
  | .keyDown key =>
    if key = "Shift" then calm ({ w with shiftHeld := true }, .none)
    else if key = "Return" ∨ key = "Enter" then calm w.start
    else calm (w, .none)
  | .keyUp key =>
    if key = "Shift" then calm ({ w with shiftHeld := false }, .none) else calm (w, .none)
  | .shift pressed => calm ({ w with shiftReported := pressed }, .none)
  | .assign text => calm ({ w with assignments := text }, .none)
  | .finish place => calm (w.finish place)
  | .configure edits closing => w.configure edits closing
  | .startAmid waiting =>
    match w.accept with
    | .error refused => calm refused
    | .ok question =>
      let (handled, notices) := w.await.handle waiting
      calm (handled.employ question, notices)

/-- Handles actions that wait, one after another. A fault ends its action and nothing else. -/
def handle (w : Window) : List Action → Window × Notices
  | [] => (w, .none)
  | action :: rest =>
    let reaction := w.react action
    let (last, others) := reaction.window.handle rest
    (last, reaction.notices ++ others)

end

/-- The window after actions, one after another. -/
def after (w : Window) : List Action → Window
  | [] => w
  | action :: rest => (w.react action).window.after rest

/-- All that the user gets to see during actions. -/
def shown (w : Window) : List Action → Notices
  | [] => .none
  | action :: rest => (w.react action).notices ++ (w.react action).window.shown rest

end Window

end Reckoner
