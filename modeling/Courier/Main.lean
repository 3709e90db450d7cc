import Courier.Config.Load
import Courier.Config.Save
import Courier.Text.Quoted

/-!
The daemon's command line: `-config PATH` names the configuration file. A missing file or no
path at all means the defaults. The configuration is loaded and checked, and what it sets is
reported; a configuration that cannot be loaded is reported and ends the run with status 1.
-/

open Courier.Config Courier.Text

/-- The path given with `-config` or `--config`, as the next argument or after `=`. -/
def configArgument : List String → String
  | [] => ""
  | a :: rest =>
    if a = "-config" || a = "--config" then rest.headD ""
    else if a.startsWith "-config=" then (a.drop 8).toString
    else if a.startsWith "--config=" then (a.drop 9).toString
    else configArgument rest

/-- The text of the configuration file, none when there is no such file. -/
def readSource (path : String) : IO (Except String (Option String)) := do
  if path.isEmpty then return .ok none
  try
    return .ok (some (← IO.FS.readFile path))
  catch e =>
    match e with
    | .noFileOrDirectory .. => return .ok none
    | e => return .error ("failed to read config file: " ++ toString e)

def main (args : List String) : IO UInt32 := do
  let report (m : String) : IO UInt32 := do
    IO.eprintln ("level=ERROR msg=\"Failed to load configuration\" error=" ++
      Quoted.quoteBytes m.toUTF8.toList)
    return 1
  match ← readSource (configArgument args) with
  | .error m => report m
  | .ok source =>
    match loadSource source with
    | .error (.invalid m) => report m
    | .error (.crash m) =>
      IO.eprintln ("panic: " ++ m)
      return 2
    | .ok c =>
      IO.println "level=INFO msg=\"Starting dispatch daemon\" version=0.1.0"
      IO.println ("level=INFO msg=\"Configuration loaded\" " ++ c.summary)
      return 0
