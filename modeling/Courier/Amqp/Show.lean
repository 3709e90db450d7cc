import Courier.Amqp.Value
import Courier.Number.Shortest
import Courier.Text.Utf8

/-!
How error messages name a value's kind and show a value. Kinds carry the names of the host
types the codec works on (`uint32`, `types.Symbol`, `[]interface {}`); a value shows its
scalars in decimal, floats by their shortest text, byte strings and lists in brackets, and
records as their fields in braces.
-/

set_option autoImplicit false

namespace Courier.Amqp

open Courier.Number

/-- The zone reference that a timestamp's record shows as its last field. -/
def zoneReference : String := "0x9a57c0"

/-- Seconds between the start of year 1 and the epoch, the offset of a timestamp's second
field. -/
def epochOffset : Int := 62135596800

/-- A timestamp's record: nanoseconds within the second, seconds since year 1, zone. -/
def timestampRecord (ms : Int64) : String :=
  let sec := Int.tdiv ms.toInt 1000
  let nsec := Int.tmod ms.toInt 1000 * 1000000
  let (sec, nsec) := if nsec < 0 then (sec - 1, nsec + 1000000000) else (sec, nsec)
  "\x7b" ++ toString nsec ++ " " ++ toString (sec + epochOffset) ++ " " ++ zoneReference ++ "\x7d"

/-- Bytes in brackets, in decimal. -/
def bytesText (bs : List UInt8) : String :=
  "[" ++ " ".intercalate (bs.map fun b => toString b.toNat) ++ "]"

namespace Value

/-- The name of a value's kind. -/
def kindName : Value → String
  | .null => "<nil>"
  | .bool _ => "bool"
  | .ubyte _ => "uint8"
  | .ushort _ => "uint16"
  | .uint _ => "uint32"
  | .ulong _ => "uint64"
  | .byte _ => "int8"
  | .short _ => "int16"
  | .int _ => "int32"
  | .long _ => "int64"
  | .float _ => "float32"
  | .double _ => "float64"
  | .decimal32 _ => "types.Decimal32"
  | .decimal64 _ => "types.Decimal64"
  | .decimal128 _ => "types.Decimal128"
  | .char _ => "types.Char"
  | .timestamp _ => "types.Timestamp"
  | .uuid _ => "types.UUID"
  | .binary _ => "[]uint8"
  | .string _ => "string"
  | .symbol _ => "types.Symbol"
  | .list _ => "[]interface \x7b\x7d"
  | .map _ => "types.Map"
  | .textMap _ => "map[string]interface \x7b\x7d"
  | .array .. => "types.Array"
  | .described .. => "types.Described"
  | .describedRef .. | .nullRef => "*types.Described"
  | .foreign (.int _) => "int"
  | .foreign (.uint _) => "uint"
  | .foreign .unit => "struct \x7b\x7d"
  | .foreign (.texts _) => "[]string"

/-- Texts joined by single blanks. -/
def spaced (xs : List String) : String := " ".intercalate xs

mutual

/-- How a value shows in a message. -/
def render : Value → String
  | .null => "<nil>"
  | .bool b => if b then "true" else "false"
  | .ubyte n => toString n.toNat
  | .ushort n => toString n.toNat
  | .uint n => toString n.toNat
  | .ulong n => toString n.toNat
  | .byte n => toString n.toInt
  | .short n => toString n.toInt
  | .int n => toString n.toInt
  | .long n => toString n.toInt
  | .float bits => FloatStyle.general.render .binary32 bits.toNat
  | .double bits => FloatStyle.general.render .binary64 bits.toNat
  | .decimal32 d => bytesText d.bytes
  | .decimal64 d => bytesText d.bytes
  | .decimal128 d => bytesText d.bytes
  | .char c => toString c.toInt32.toInt
  | .timestamp ms => timestampRecord ms
  | .uuid u => bytesText u.bytes
  | .binary bs => bytesText bs
  | .string bs => Text.Utf8.toText bs
  | .symbol bs => Text.Utf8.toText bs
  | .list items => "[" ++ spaced (renderAll items) ++ "]"
  | .map entries => "[" ++ spaced (renderEntries entries) ++ "]"
  | .textMap entries =>
    let sorted := (renderFields entries).mergeSort (fun a b => decide (a.1 ≤ b.1))
    "map[" ++ spaced (sorted.map fun (k, t) => k ++ ":" ++ t) ++ "]"
  | .array none c items => "\x7b<nil> " ++ toString c.toNat ++ " [" ++ spaced (renderAll items) ++ "]\x7d"
  | .array (some d) c items =>
    "\x7b" ++ render d ++ " " ++ toString c.toNat ++ " [" ++ spaced (renderAll items) ++ "]\x7d"
  | .described d v => "\x7b" ++ render d ++ " " ++ render v ++ "\x7d"
  | .describedRef d v => "&\x7b" ++ render d ++ " " ++ render v ++ "\x7d"
  | .nullRef => "<nil>"
  | .foreign (.int n) => toString n
  | .foreign (.uint n) => toString n
  | .foreign .unit => "\x7b\x7d"
  | .foreign (.texts xs) => "[" ++ spaced xs ++ "]"

/-- How each item shows. -/
def renderAll : List Value → List String
  | [] => []
  | v :: rest => render v :: renderAll rest

/-- How each map entry shows: key and value in braces. -/
def renderEntries : List (Value × Value) → List String
  | [] => []
  | (k, v) :: rest => ("\x7b" ++ render k ++ " " ++ render v ++ "\x7d") :: renderEntries rest

/-- Each key of a text-keyed map with how its value shows. -/
def renderFields : List (String × Value) → List (String × String)
  | [] => []
  | (k, v) :: rest => (k, render v) :: renderFields rest

end

end Value

end Courier.Amqp
