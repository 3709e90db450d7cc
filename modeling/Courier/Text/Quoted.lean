import Courier.Text.Hex
import Courier.Text.Printable
import Courier.Text.Utf8

/-!
Text in double quotes with escapes, as messages quote raw bytes: a printable character stands
for itself, quote and backslash are escaped, the usual control characters get their letter
escapes, other characters below U+10000 become `\u` and four digits, others `\U` and eight,
and a byte that starts no well-formed UTF-8 sequence becomes `\x` and two digits.
-/

set_option autoImplicit false

namespace Courier.Text.Quoted

/-- Whether a code point is printed as itself: a letter, mark, number, punctuation sign, symbol
or the space. -/
def printable (c : Nat) : Bool := Printable.printable c

/-- Hexadecimal digits of `n`, padded to `width`. -/
def hexPadded (width n : Nat) : String :=
  let rec go : Nat → Nat → List Char → List Char
    | 0, _, acc => acc
    | k + 1, m, acc => go k (m / 16) (Hex.digit (m % 16) :: acc)
  String.ofList (go width n [])

/-- The escape of one code point. -/
def escape (c : Nat) : String :=
  if c == 0x22 then "\\\"" else if c == 0x5c then "\\\\"
  else if printable c then String.singleton (Char.ofNat c)
  else if c == 7 then "\\a" else if c == 8 then "\\b" else if c == 12 then "\\f"
  else if c == 10 then "\\n" else if c == 13 then "\\r" else if c == 9 then "\\t"
  else if c == 11 then "\\v"
  else if c < 0x20 || c == 0x7f then "\\x" ++ hexPadded 2 c
  else if c < 0x10000 then "\\u" ++ hexPadded 4 c
  else "\\U" ++ hexPadded 8 c

/-- Bytes as quoted text. -/
def quoteBytes (bs : List UInt8) : String :=
  let rec go : List UInt8 → List String
    | [] => []
    | b :: rest =>
      match Utf8.decodeOne (b :: rest) with
      | some (c, n) => escape c :: go ((b :: rest).drop (max n 1))
      | none => ("\\x" ++ hexPadded 2 b.toNat) :: go rest
  termination_by bs => bs.length
  decreasing_by all_goals simp only [List.length_drop, List.length_cons]; omega
  "\"" ++ String.join (go bs) ++ "\""

end Courier.Text.Quoted
