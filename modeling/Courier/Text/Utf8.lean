/-!
UTF-8 as the codec's text values need it: a byte string is read one code point at a time, and
a byte that starts no well-formed sequence (overlong forms, surrogates and code points past
U+10FFFF included) reads as U+FFFD on its own.
-/

set_option autoImplicit false

namespace Courier.Text.Utf8

/-- Whether a byte continues a sequence, within `[lo, hi]` for the second byte's range. -/
def within (b : UInt8) (lo hi : Nat) : Bool := lo ≤ b.toNat && b.toNat ≤ hi

/-- The code point at the start of a byte string and how many bytes it takes, or `none` when
the first byte starts no well-formed sequence. -/
def decodeOne : List UInt8 → Option (Nat × Nat)
  | [] => none
  | b0 :: rest =>
    let x := b0.toNat
    let cont (b : UInt8) : Bool := within b 0x80 0xBF
    if x < 0x80 then some (x, 1)
    else if 0xC2 ≤ x ∧ x ≤ 0xDF then
      match rest with
      | b1 :: _ => if cont b1 then some ((x % 32) * 64 + b1.toNat % 64, 2) else none
      | [] => none
    else if 0xE0 ≤ x ∧ x ≤ 0xEF then
      let lo := if x = 0xE0 then 0xA0 else 0x80
      let hi := if x = 0xED then 0x9F else 0xBF
      match rest with
      | b1 :: b2 :: _ =>
        if within b1 lo hi && cont b2 then
          some ((x % 16) * 4096 + (b1.toNat % 64) * 64 + b2.toNat % 64, 3)
        else none
      | _ => none
    else if 0xF0 ≤ x ∧ x ≤ 0xF4 then
      let lo := if x = 0xF0 then 0x90 else 0x80
      let hi := if x = 0xF4 then 0x8F else 0xBF
      match rest with
      | b1 :: b2 :: b3 :: _ =>
        if within b1 lo hi && cont b2 && cont b3 then
          some ((x % 8) * 262144 + (b1.toNat % 64) * 4096 + (b2.toNat % 64) * 64
            + b3.toNat % 64, 4)
        else none
      | _ => none
    else none

/-- The code points of a byte string in order, `none` for each byte that starts no
well-formed sequence. -/
def codePoints : List UInt8 → List (Option Nat)
  | [] => []
  | b :: rest =>
    match decodeOne (b :: rest) with
    | some (c, n) => some c :: codePoints ((b :: rest).drop (max n 1))
    | none => none :: codePoints rest
termination_by bs => bs.length
decreasing_by
  all_goals simp only [List.length_drop, List.length_cons]
  all_goals omega

/-- The text of a byte string, each malformed byte shown as U+FFFD. -/
def toText (bs : List UInt8) : String :=
  String.ofList ((codePoints bs).map fun c => match c with
    | some n => Char.ofNat n
    | none => '\ufffd')

/-- Whether every byte belongs to a well-formed sequence. -/
def valid (bs : List UInt8) : Bool := (codePoints bs).all Option.isSome

end Courier.Text.Utf8
