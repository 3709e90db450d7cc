/-!
Base64 in the standard alphabet, with `=` padding. Reading passes over carriage returns and line
feeds wherever they stand, takes the rest in groups of four characters, and lets padding end
only the last group: `xx==` for one byte, `xxx=` for two. Bits that a padded group leaves over
are ignored. Writing pads the last group and can cut the text into lines of a fixed width.
-/

set_option autoImplicit false

namespace Courier.Text.Base64

/-- The sixty-four characters, in the order of their values. -/
def alphabet : List Char :=
  "ABCDEFGHIJKLMNOPQRSTUVWXYZabcdefghijklmnopqrstuvwxyz0123456789+/".toList

/-- The value of a character of the alphabet. -/
def sextet (c : Char) : Option Nat :=
  if 'A' ≤ c && c ≤ 'Z' then some (c.toNat - 65)
  else if 'a' ≤ c && c ≤ 'z' then some (c.toNat - 71)
  else if '0' ≤ c && c ≤ '9' then some (c.toNat + 4)
  else if c = '+' then some 62
  else if c = '/' then some 63
  else none

/-- The bytes of groups of four characters; padding may only end the last group. -/
def groups : List Char → Option (List UInt8)
  | [] => some []
  | [a, b, '=', '='] => do
    let v := (← sextet a) * 262144 + (← sextet b) * 4096
    some [(v / 65536).toUInt8]
  | [a, b, c, '='] => do
    let v := (← sextet a) * 262144 + (← sextet b) * 4096 + (← sextet c) * 64
    some [(v / 65536).toUInt8, (v / 256 % 256).toUInt8]
  | a :: b :: c :: d :: rest => do
    let v := (← sextet a) * 262144 + (← sextet b) * 4096 + (← sextet c) * 64 + (← sextet d)
    let tail ← groups rest
    some ((v / 65536).toUInt8 :: (v / 256 % 256).toUInt8 :: (v % 256).toUInt8 :: tail)
  | _ => none

/-- The bytes a text stands for, if it is well-formed. -/
def decode (text : String) : Option (List UInt8) :=
  groups (text.toList.filter fun c => c ≠ '\r' && c ≠ '\n')

/-- The character of a value below 64. -/
def digit (v : Nat) : Char := alphabet.getD v 'A'

/-- The text of some bytes, the last group padded. -/
def encode : List UInt8 → List Char
  | [] => []
  | [x] =>
    let v := x.toNat * 65536
    [digit (v / 262144), digit (v / 4096 % 64), '=', '=']
  | [x, y] =>
    let v := x.toNat * 65536 + y.toNat * 256
    [digit (v / 262144), digit (v / 4096 % 64), digit (v / 64 % 64), '=']
  | x :: y :: z :: rest =>
    let v := x.toNat * 65536 + y.toNat * 256 + z.toNat
    digit (v / 262144) :: digit (v / 4096 % 64) :: digit (v / 64 % 64) :: digit (v % 64) ::
      encode rest

/-- Cuts characters into lines of `width`, at least one character each, every line ended by a
line feed. -/
def lines (width : Nat) : List Char → List Char
  | [] => []
  | c :: rest =>
    let w := max width 1
    (c :: rest).take w ++ '\n' :: lines width ((c :: rest).drop w)
termination_by cs => cs.length
decreasing_by
  simp only [List.length_drop, List.length_cons]
  omega

end Courier.Text.Base64
