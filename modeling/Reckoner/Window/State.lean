import Reckoner.CommandLine
import Reckoner.Window.Form

namespace Reckoner

/-- What is to be calculated. -/
structure Question where
  problem : String
  bindings : Bindings

/-- A calculation that is started and has not reported yet. Its question is its own, but it shares its settings with the
window that started it. -/
structure Job where
  question : Question
  /-- The place of its settings among all that the window has read, counted from the oldest. -/
  settings : Nat

/-- The calculator window. The lines for the display and for the assignments are assumed to give back every text that
was put into them. -/
structure Window where
  /-- The settings that the window read last. -/
  settings : Settings
  /-- The settings that the window read before, the newest first. A calculation may still use them. -/
  replaced : List Settings
  file : FileContent
  /-- The value of the last calculation that succeeded. -/
  lastResult : Option Float
  formula : String
  /-- The text in the line above the buttons. -/
  display : String
  /-- The text in the line for the assignments. -/
  assignments : String
  /-- Whether the window waits for a report. It takes no further start while it does. -/
  busy : Bool
  /-- Whether the enter button takes clicks. -/
  enterEnabled : Bool
  /-- The calculations that are started and have not reported yet, the oldest first. -/
  running : List Job
  /-- Whether the window saw the shift key go down and not up. -/
  shiftHeld : Bool
  /-- Whether the keyboard reports the shift key as pressed. -/
  shiftReported : Bool
  /-- The text shown last and the texts to go back to, the newest first. -/
  history : List String
  clipboard : Option String

/-- A message box. The box about unsaved settings says nothing more than its text. -/
structure Dialog where
  title : String
  text : String
  detail : Option (String × Bool)

/-- What the user gets to see of a step, besides the window. -/
structure Notices where
  dialogs : List Dialog
  log : List String

namespace Notices

def none : Notices := ⟨[], []⟩

def append (first second : Notices) : Notices :=
  ⟨first.dialogs ++ second.dialogs, first.log ++ second.log⟩

instance : Append Notices := ⟨append⟩

end Notices

namespace Window

def blank : String := "0"

def fresh (settings : Settings) (file : FileContent) : Window where
  settings
  replaced := []
  file
  lastResult := none
  formula := blank
  display := blank
  assignments := ""
  busy := false
  enterEnabled := true
  running := []
  shiftHeld := false
  shiftReported := false
  history := [blank]
  clipboard := none

/-- A new window on a configuration file. It reads the settings for itself. -/
def new (file : FileContent) : Except Fault (Window × Notices) := do
  let (settings, unread) ← Settings.load file
  return (fresh settings file, ⟨[], Settings.readLog unread⟩)

/-- All settings that the window has read, the newest first. -/
def readings (w : Window) : List Settings := w.settings :: w.replaced

/-- The settings at a place, counted from the oldest. -/
def settingsAt (w : Window) (place : Nat) : Settings := w.readings.reverse[place]?.getD w.settings

/-- Marks the window as busy or as idle. Enter is disabled while it is busy. -/
def setBusy (w : Window) (busy : Bool) : Window :=
  { w with busy, enterEnabled := !busy }

def dark (w : Window) : Bool := w.settings.isOn "darkmode"

/-- The text shown last and the texts to go back to, the oldest first. -/
def undoList (w : Window) : List String := w.history.reverse

def top (w : Window) : String := w.history.headD ""

def failureBox (w : Window) (report : Report) : Dialog :=
  ⟨report.area, report.describe, some ("Equation: " ++ report.equation.getD "None", w.dark)⟩

def reportFailure (w : Window) (report : Report) : Window × Notices :=
  (w, ⟨[w.failureBox report], []⟩)

/-- Makes a text the formula, shows it, and remembers it. -/
def edit (w : Window) (formula : String) : Window :=
  { w with formula, display := formula, history := formula :: w.history }

def erase (w : Window) : Window :=
  let shorter := String.ofList w.formula.toList.dropLast
  w.edit (if shorter = "" then blank else shorter)

/-- Adds a text to the formula. After a zero or a shown result it starts a new formula. -/
def append (w : Window) (text : String) : Window :=
  w.edit (if w.formula = blank ∨ w.display ≠ w.formula then text else w.formula ++ text)

/-- Goes back by one text. The last text is never given up. -/
def undo (w : Window) : Window :=
  match w.history with
  | _ :: formula :: rest => { w with history := formula :: rest, formula, display := formula }
  | _ => { w with display := w.formula }

def lastWord (text : List Char) : List Char :=
  (text.reverse.takeWhile (· ≠ ' ')).reverse

/-- Copies the result, or the whole line while shift is pressed. -/
def copy (w : Window) : Window :=
  let copied := if w.shiftHeld ∨ w.shiftReported then w.display
    else String.ofList (lastWord w.display.toList)
  { w with clipboard := some copied }

def answerName : List Char := ['A', 'n', 's']

/-- Replaces the name of the last result in a text, from left to right. The number `skip` counts the characters of an
occurrence that are still to be passed over. -/
def replaceAnswer (replacement : List Char) : Nat → List Char → List Char
  | _, [] => []
  | skip + 1, _ :: rest => replaceAnswer replacement skip rest
  | 0, c :: rest =>
    if answerName.isPrefixOf (c :: rest) then replacement ++ replaceAnswer replacement 2 rest
    else c :: replaceAnswer replacement 0 rest

/-- Whether a text holds the name of the last result. -/
def mentionsAnswer : List Char → Bool
  | [] => false
  | c :: rest => answerName.isPrefixOf (c :: rest) || mentionsAnswer rest

def operand (x : Float) : List Char :=
  '(' :: ((Double.chars x).map Char.toUpper ++ [')'])

/-- The text to evaluate for a formula. A formula that needs a last result fails without one. -/
def problemOf (formula : String) (lastResult : Option Float) : Except Report String :=
  let problem := normalize formula.toList
  if mentionsAnswer problem then
    match lastResult with
    | none => .error { Failure.noLastResult.report with equation := some (String.ofList problem) }
    | some x => .ok (String.ofList (replaceAnswer (operand x) 0 problem))
  else .ok (String.ofList problem)

/-- The question that a formula, a line of assignments and the last result ask. -/
def questionOf (formula assignments : String) (lastResult : Option Float) : Except Report Question := do
  let problem ← problemOf formula lastResult
  let numbers ← (Assignment.readLine assignments).mapError Failure.report
  return ⟨problem, CommandLine.bindings numbers⟩

/-- What is shown while a calculation is running. -/
def waitingText : String := "..."

def refusal : String := "Error 4002: " ++ (catalogueMessage? "4002").getD ""

/-- The window while a calculation is being started. -/
def await (w : Window) : Window := { w.setBusy true with display := waitingText }

/-- The window with a calculation behind those that are running, on the settings that were read last. -/
def employ (w : Window) (question : Question) : Window :=
  { w with running := w.running ++ [⟨question, w.replaced.length⟩] }

def launch (w : Window) (question : Question) : Window := w.await.employ question

/-- The question of a calculation that can be started, or what happens instead. While the window is busy, a further
start is only logged. -/
def accept (w : Window) : Except (Window × Notices) Question :=
  if w.busy then .error (w, ⟨[], [refusal]⟩)
  else (questionOf w.formula w.assignments w.lastResult).mapError w.reportFailure

/-- Starts a calculation, while nothing else waits to be handled. -/
def start (w : Window) : Window × Notices :=
  match w.accept with
  | .ok question => (w.launch question, .none)
  | .error refused => refused

inductive Finding where
  | answer (answer : Answer)
  | failure (report : Report)
  | crash (report : Report)

/-- Carries a calculation out. What is no failure of the expression is reported as a crash. -/
def Finding.of (question : Question) (settings : Settings) : Finding :=
  match calculate question.problem question.bindings settings with
  | .ok found => .answer found
  | .error (.failure cause equation) => .failure { cause.report with equation }
  | .error (.fault kind) =>
    .crash { (Failure.crash kind.detail).report with equation := some question.problem }

/-- What a calculation tells the window when it is done: what it found, and the text it was about. -/
structure Message where
  finding : Finding
  problem : String

def Message.of (question : Question) (settings : Settings) : Message :=
  ⟨Finding.of question settings, question.problem⟩

/-- The message of a calculation that is done now: it sees its settings as they are now. -/
def message (w : Window) (job : Job) : Message := .of job.question (w.settingsAt job.settings)

def resultLine (w : Window) (problem : String) (answer : Answer) : String :=
  if w.settings.isOn "show_equation" then problem ++ " " ++ answer.text else answer.text

/-- Takes what a calculation has to say, and is idle again. An answer is shown and remembered; a failure is reported,
and the formula is shown again. -/
def receive (w : Window) (message : Message) : Window × Notices :=
  match message.finding with
  | .answer answer =>
    let line := w.resultLine message.problem answer
    ({ w.setBusy false with lastResult := some answer.value, display := line, history := line :: w.history }, .none)
  | .failure report =>
    ({ w.setBusy false with display := w.formula }, ⟨[w.failureBox report], []⟩)
  | .crash report =>
    ({ w.setBusy false with display := w.formula },
      ⟨[w.failureBox report], ["Unexpected crash while calculating " ++ Text.quoted message.problem]⟩)

/-- Lets one of the running calculations finish and report, if there is one at that place. -/
def finish (w : Window) (place : Nat) : Window × Notices :=
  match w.running[place]? with
  | none => (w, .none)
  | some job => { w with running := w.running.eraseIdx place }.receive (w.message job)

/-- Takes a value as the buttons send it: a control, or a text to add to the formula. -/
def enter (w : Window) (value : String) : Window × Notices :=
  if value = "<" then (w.erase, .none)
  else if value = "C" then (w.edit blank, .none)
  else if value = "↶" then (w.undo, .none)
  else if value = "📋" then (w.copy, .none)
  else if value = "⏎" then w.start
  else (w.append value, .none)

end Window

end Reckoner
