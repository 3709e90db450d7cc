import Courier.Config.Basic
import Courier.Yaml.Style
import Courier.Number.Duration
import Courier.Number.Shortest
import Courier.Text.Base64
import Courier.Text.Utf8

/-!
Writing a configuration as YAML: each section in order as a block mapping of its settings,
nested by four spaces. Spans of time are written in their short form (`1m30s`), reals in the
shortest form that reads back as the same number, and strings in the plainest style that keeps
them intact. Bytes that are not UTF-8 cannot be written as text: they are written in base64
under the `!!binary` tag, in lines of seventy characters when they need more than one.
-/

set_option autoImplicit false

namespace Courier.Config

open Courier.Number Courier.Yaml Courier.Text

/-- How reals are written: shortest digits, exponents from `e+06` and below `e-04`. -/
def realStyle : FloatStyle := ⟨-4, 6, "e", 2, ".nan", ".inf", "-.inf"⟩

/-- The width of a line of base64 text. -/
def binaryWidth : Nat := 70

/-- Bytes written as a value indented under a section: as text when they are UTF-8, else as
tagged base64. -/
def writeBytes (bs : List UInt8) : String :=
  if Utf8.valid bs then writeString 8 (Utf8.toText bs)
  else
    let encoded := Base64.encode bs
    if encoded.length < binaryWidth then "!!binary " ++ String.ofList encoded
    else "!!binary " ++ writeString 8 (String.ofList (Base64.lines binaryWidth encoded))

/-- The text of a setting as a value indented under a section. -/
def Setting.written : Setting → String
  | .text s => writeBytes s
  | .int i => toString i
  | .duration d => renderDuration d
  | .flag b => if b then "true" else "false"
  | .real bits => realStyle.render BinaryFormat.binary64 bits

/-- The settings of a configuration by section, in order. -/
def entries (c : Config) : List (String × List (String × Setting)) :=
  layout.map fun (sec, _, fields) =>
    (sec, fields.filterMap fun (name, _) => (c.setting sec name).map fun v => (name, v))

/-- One setting's line; a block value that ends in a line break ends the line itself. -/
def settingLine (name : String) (v : Setting) : String :=
  let text := v.written
  let body := "    " ++ name ++ ": " ++ text
  match text.toList.getLast? with
  | some c => if isBreak c then body else body ++ "\n"
  | none => body ++ "\n"

/-- A configuration written as YAML. -/
def save (c : Config) : String :=
  String.join (c.entries.map fun (sec, settings) =>
    sec ++ ":\n" ++ String.join (settings.map fun (name, v) => settingLine name v))

/-- The settings a daemon reports when it starts, as `name=value` pairs. -/
def summary (c : Config) : String :=
  " ".intercalate ["label=" ++ Utf8.toText c.dispatcher.label, "threads=" ++ toString c.dispatcher.threads,
    "balancer_enabled=" ++ toString c.balancer.enabled,
    "rebalance_interval=" ++ renderDuration c.balancer.rebalanceInterval,
    "pairs=" ++ toString c.workload.pairs, "log_level=" ++ Utf8.toText c.log.level]

end Courier.Config
