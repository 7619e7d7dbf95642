import Reckoner.Program

namespace Reckoner

def contentOf (path : String) : IO FileContent := do
  try
    return some (← IO.FS.readBinFile path)
  catch _ =>
    return none

def presentFiles : IO (List String) :=
  (Program.required.map (·.1)).filterM fun path => return (← contentOf path).isSome

end Reckoner

open Reckoner in
/-- Runs the program on the files of the working directory, prints what it leaves behind, and ends with its status. -/
def main (arguments : List String) : IO UInt32 := do
  let config ← contentOf Settings.fileName
  let files ← presentFiles
  match Program.run ⟨.either, arguments, config, files, false⟩ with
  | .ok printed =>
    IO.print printed.out
    IO.eprint printed.err
    return printed.status.toUInt32
  | .error fault =>
    IO.eprintln fault.detail
    return 1
