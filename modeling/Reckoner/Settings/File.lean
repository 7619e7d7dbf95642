import Reckoner.Failure
import Reckoner.Json.Reader
import Reckoner.Json.Writer
import Reckoner.Settings.Basic

namespace Reckoner

/-- The bytes of a file, or none if there is no such file. -/
abbrev FileContent := Option ByteArray

/-- Why a file gives no value without that being a fault. -/
inductive Unread where
  | missing
  | malformed (text : List Char) (flaw : Json.Flaw)

namespace Unread

def text (name : String) : Unread → String
  | missing => "[Errno 2] No such file or directory: '" ++ name ++ "'"
  | malformed text flaw => flaw.account text

end Unread

namespace FileContent

/-- Text with every kind of line end turned into a line feed. -/
def plainLines : List Char → List Char
  | [] => []
  | '\r' :: '\n' :: rest => '\n' :: plainLines rest
  | c :: rest => (if c = '\r' then '\n' else c) :: plainLines rest

/-- The text of a file's bytes. Bytes that are no text are a fault. -/
def decode (bytes : ByteArray) : Except Fault (List Char) :=
  match String.fromUTF8? bytes with
  | some text => .ok (plainLines text.toList)
  | none => .error (.notText "the bytes are no UTF-8 text")

/-- The JSON value that a file holds, or why it holds none. -/
def readJson (content : FileContent) : Except Fault (Except Unread Value) :=
  match content with
  | none => .ok (.error .missing)
  | some bytes => do
    let text ← decode bytes
    match Json.read text with
    | .ok value => return .ok value
    | .error flaw =>
      if flaw.problem = .tooManyDigits then .error (.wrongValue flaw.problem.text)
      else if flaw.problem = .tooDeep then .error (.tooDeep flaw.problem.text)
      else return .error (.malformed text flaw)

end FileContent

namespace Settings

/-- The parts of a value that is laid out in a row: the items of a list, the characters of a text, or the names of
a mapping. -/
def parts? : Value → Option (List Value)
  | .list items => some items
  | .text text => some (text.map fun point => .text [point])
  | .mapping entries => some (entries.map fun (name, _) => .text name)
  | _ => none

def putPair (settings : Settings) (pair : Value) : Except Fault Settings :=
  match parts? pair with
  | none => .error (.wrongType "an entry of the settings is no pair")
  | some [key, value] =>
    match Key.ofValue? key with
    | some key => .ok (settings.put key value)
    | none => .error (.wrongType "a list or a mapping cannot be a key")
  | some _ => .error (.wrongValue "an entry of the settings has other than two parts")

/-- Lays a value over settings. A mapping brings its entries; a row of pairs brings one entry for each pair; anything
else is a fault. -/
def overlay (settings : Settings) (value : Value) : Except Fault Settings :=
  match value with
  | .mapping entries => .ok (settings.putAll (entries.map fun (name, value) => (.name name, value)))
  | value =>
    match parts? value with
    | some pairs => pairs.foldlM putPair settings
    | none => .error (.wrongType "the settings are no mapping")

/-- The settings of a file, laid over the defaults. A file that cannot be read leaves the defaults, and the second
answer says why. -/
def load (content : FileContent) : Except Fault (Settings × Option Unread) := do
  match ← content.readJson with
  | .error unread => return (defaults, some unread)
  | .ok value => return (← defaults.overlay value, none)

def fileName : String := "config.json"

/-- The warning about a settings file that could not be read. -/
def unreadWarning (unread : Unread) : String :=
  "Could not read settings (" ++ unread.text fileName ++ "), using defaults."

def readLog (unread : Option Unread) : List String :=
  (unread.map unreadWarning).toList

/-- What looking up settings by key gives: all of them, or one value. -/
inductive Lookup where
  | all (settings : Settings)
  | one (value : Value)

/-- Looks a key up. The key `all` stands for everything, and an unknown key has the value zero. -/
def lookup (settings : Settings) (key : String) : Lookup :=
  if key = "all" then .all settings else .one ((settings.value? key).getD (.whole 0))

/-- Looks a key up in descriptions. The key `all` stands for everything, and an unknown key has the value zero. -/
def describe (descriptions : Value) (key : String) : Except Fault Value :=
  if key = "all" then .ok descriptions
  else match descriptions with
    | .mapping entries => .ok ((entries.lookup (.ofString key)).getD (.whole 0))
    | _ => .error (.noEntries "the descriptions are no mapping")

/-- Looks a key up in the descriptions of a file. A file that cannot be read has no descriptions at all. -/
def description (content : FileContent) (key : String) : Except Fault Value := do
  match ← content.readJson with
  | .error _ => return .mapping []
  | .ok value => describe value key

/-- The texts that describe the settings to the user. -/
def descriptions : List (String × String) :=
  [("decimal_places", "Decimal places"),
   ("fractions", "Show results as fractions"),
   ("degrees", "Angles in degrees (sin, cos, tan, atan)"),
   ("darkmode", "Darkmode"),
   ("show_equation", "Show equation next to the result"),
   ("debug", "Debug logging")]

def shippedDescriptions : Value :=
  .mapping (descriptions.map fun (name, text) => (.ofString name, .ofString text))

def keyName : Key → CodePoints
  | .name text => text
  | .null => .ofString "null"
  | .flag value => .ofString (if value then "true" else "false")
  | .whole value => .ofString (toString value)
  | .real value => (Json.printReal value).map CodePoint.char

def toValue (settings : Settings) : Value :=
  .mapping (settings.entries.map fun (key, value) => (keyName key, value))

/-- The text of settings that nothing stops from being written. -/
def written (settings : Settings) : String :=
  String.ofList (Json.print 0 settings.toValue)

/-- Writes entries of settings behind a text. The name of a key is made before anything of its entry is written. -/
def writeEntries (before : List Char) : List (Key × Value) → Json.Draft
  | [] => .of []
  | (key, value) :: rest =>
    match key.toValue.follow Json.writingNeed (Json.writingRoom - 1) with
    | .ok () =>
      .of (before ++ Json.printText (keyName key) ++ [':', ' ']) ++ Json.write (Json.writingRoom - 1) 1 [] value ++
        writeEntries (',' :: Json.newline 1) rest
    | .error excess => .stopped excess

/-- Writes settings as a mapping, up to the first excess. -/
def write (settings : Settings) : Json.Draft :=
  if settings.entries.isEmpty then .of ['\x7b', '\x7d']
  else .of ('\x7b' :: Json.newline 1) ++ writeEntries [] settings.entries ++ .of (Json.newline 0 ++ ['\x7d'])

/-- Saves settings: the text that is then in the file. -/
def save (settings : Settings) : Except Fault String :=
  match settings.write with
  | ⟨text, none⟩ => .ok (String.ofList text)
  | ⟨_, some excess⟩ => .error excess.fault

end Settings

/-- Why settings do not get into their file. -/
inductive WriteFailure where
  /-- The file cannot be opened for writing. -/
  | unopened (reason : String)
  /-- The file is opened, and so emptied, but no more than some characters arrive in it. -/
  | brokenOff (arrived : Nat) (reason : String)
deriving DecidableEq

namespace WriteFailure

def reason : WriteFailure → String
  | unopened reason | brokenOff _ reason => reason

end WriteFailure

namespace Settings

/-- What a file holds after settings were saved to it, whether that went well or not. The characters of settings are all
ASCII, so that any number of them can arrive. -/
def stored (settings : Settings) (file : FileContent) : Option WriteFailure → FileContent
  | none => some (String.ofList settings.write.text).toUTF8
  | some (.unopened _) => file
  | some (.brokenOff arrived _) => some (String.ofList (settings.write.text.take arrived)).toUTF8

def unsavedWarning (failure : WriteFailure) : String :=
  "Settings could not be saved: " ++ failure.reason

end Settings

end Reckoner
