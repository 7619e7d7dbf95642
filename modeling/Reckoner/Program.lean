import Reckoner.Window.State

namespace Reckoner

inductive Entry where
  /-- With arguments it is the command line, and without them the window. -/
  | either
  | commandLine
deriving DecidableEq

structure Launch where
  entry : Entry
  arguments : List String
  config : FileContent
  files : List String
  /-- Whether the program brings its files with it, so that none can be missing. -/
  bundled : Bool

namespace Program

def source : String := "main"

def settingsSource : String := "Calculator.config_manager"

/-- The files that the window needs, each with the name it is reported by. -/
def required : List (String × String) :=
  [("Calculator/UI.py", "UI.py"),
   ("Calculator/MathEngine.py", "MathEngine.py"),
   ("Calculator/ScientificEngine.py", "ScientificEngine.py"),
   ("Calculator/config_manager.py", "config_manager.py"),
   ("config.json", "config.json"),
   ("ui_strings.json", "ui_strings.json")]

/-- The names of the required files that are not present. -/
def missing (files : List String) : List String :=
  (required.filter fun (path, _) => !files.contains path).map (·.2)

/-- Opens the window. It reads the settings once more, and warns once more if it cannot. -/
def openWindow (launch : Launch) : Except Fault Printed := do
  let (_, notices) ← Window.new launch.config
  return ⟨0, "", String.join (notices.log.map (warning settingsSource))⟩

def reportMissing (names : List String) : Printed :=
  ⟨1, "", Printed.line "Error: The following files are missing or in the wrong location:" ++
    String.join (names.map fun name => Printed.line ("- " ++ name))⟩

/-- Opens the window, unless files are missing. Bundled files are not looked for. -/
def checkAndOpen (launch : Launch) (debug : Bool) : Except Fault Printed :=
  if launch.bundled then openWindow launch
  else do
    let log := if debug then diagnostic source "Developer Mode: Checking file paths..." else ""
    let printed ← match missing launch.files with
      | [] => openWindow launch
      | names => .ok (reportMissing names)
    return printed.after log

def runWith (launch : Launch) (settings : Settings) : Except Fault Printed := do
  let debug := settings.isOn "debug"
  match launch.entry with
  | .commandLine => CommandLine.run launch.arguments settings debug
  | .either =>
    let log := if debug then diagnostic source ("Config loaded: " ++ settings.display) else ""
    let printed ← if launch.arguments.isEmpty then checkAndOpen launch debug
      else CommandLine.run launch.arguments settings debug
    return printed.after log

/-- Runs the program. A warning about the configuration file comes before everything else. -/
def run (launch : Launch) : Except Fault Printed := do
  let (settings, unread) ← Settings.load launch.config
  let printed ← runWith launch settings
  return match unread with
    | none => printed
    | some unread => printed.after (Printed.line (Settings.unreadWarning unread))

end Program

end Reckoner
