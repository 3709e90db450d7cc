/-!
Shortest decimal text of a binary floating-point number. A bit pattern stands for `m * 2^e`;
the reals that round to it form an interval around it, with its ends included exactly when
`m` is even. The text uses the fewest significant digits of any decimal in that interval, and
of two such decimals the one nearer the value (a tie goes to the even last digit).
`FloatStyle` holds how the digits are then laid out.
-/

set_option autoImplicit false

namespace Courier.Number

/-- A binary interchange format, by the widths of its fraction and exponent fields. -/
structure BinaryFormat where
  fractionBits : Nat
  exponentBits : Nat

namespace BinaryFormat

/-- Double precision. -/
def binary64 : BinaryFormat := ⟨52, 11⟩

/-- Single precision. -/
def binary32 : BinaryFormat := ⟨23, 8⟩

/-- The exponent bias. -/
def bias (f : BinaryFormat) : Nat := Nat.pow 2 (f.exponentBits - 1) - 1

end BinaryFormat

/-- What a bit pattern stands for. -/
inductive Binary where
  | nan
  | infinite (negative : Bool)
  /-- `(-1)^negative * m * 2^e`; `narrow` marks a value whose lower neighbour is nearer than
  its upper one (the smallest significand of a binade above the lowest). -/
  | finite (negative : Bool) (m : Nat) (e : Int) (narrow : Bool)

/-- The value of a bit pattern in a format. -/
def Binary.ofBits (f : BinaryFormat) (bits : Nat) : Binary :=
  let fraction := bits % Nat.pow 2 f.fractionBits
  let field := bits / Nat.pow 2 f.fractionBits % Nat.pow 2 f.exponentBits
  let negative := bits / Nat.pow 2 (f.fractionBits + f.exponentBits) % 2 == 1
  if field == Nat.pow 2 f.exponentBits - 1 then
    if fraction == 0 then .infinite negative else .nan
  else if field == 0 then
    .finite negative fraction (1 - (f.bias : Int) - f.fractionBits) false
  else
    .finite negative (fraction + Nat.pow 2 f.fractionBits)
      ((field : Int) - f.bias - f.fractionBits) (fraction == 0 && field > 1)

/-- Decimal digits of a natural number, most significant first; none for zero. -/
def digitsOf (n : Nat) : List Nat :=
  if n = 0 then [] else digitsOf (n / 10) ++ [n % 10]
termination_by n
decreasing_by omega

/-- The factors that put `c * 10^g` and `x * 2^p` over one scale: comparing `c * fst` with
`x * snd` compares the two numbers. -/
def scales (g p : Int) : Nat × Nat :=
  (Nat.pow 10 g.toNat * Nat.pow 2 (-p).toNat, Nat.pow 2 p.toNat * Nat.pow 10 (-g).toNat)

/-- The largest `E` with `10^E ≤ v * 2^p`, for `v > 0`: an estimate from the binary
magnitude, moved by at most a few steps. -/
def decimalMagnitude (v : Nat) (p : Int) : Int :=
  let estimate : Int := Int.fdiv (((Nat.log2 v : Int) + p) * 30103) 100000
  let below (E : Int) : Bool :=
    let (a, b) := scales E p
    a ≤ v * b
  let rec lower : Nat → Int → Int
    | 0, E => E
    | fuel + 1, E => if below E then E else lower fuel (E - 1)
  let rec raise : Nat → Int → Int
    | 0, E => E
    | fuel + 1, E => if below (E + 1) then raise fuel (E + 1) else E
  raise 4 (lower 4 estimate)

/-- Shortest digits of `m * 2^e` (with `m > 0`): a significand `c` and exponent `g` with
`c * 10^g` in the rounding interval, `c` as short as possible and then nearest. -/
def shortestDigits (m : Nat) (e : Int) (narrow : Bool) : Nat × Int :=
  -- in units of 2^(e-2): the value, and the ends of its rounding interval
  let p := e - 2
  let v := 4 * m
  let lo := if narrow then v - 1 else v - 2
  let hi := v + 2
  let inclusive := m % 2 == 0
  let E := decimalMagnitude v p
  let inside (c : Nat) (a b : Nat) : Bool :=
    if inclusive then lo * b ≤ c * a && c * a ≤ hi * b
    else lo * b < c * a && c * a < hi * b
  let rec search : Nat → Nat → Nat × Int
    | 0, _ => (m, e)
    | fuel + 1, n =>
      let g := E - n + 1
      let (a, b) := scales g p
      let c0 := v * b / a
      let c1 := c0 + 1
      let in0 := inside c0 a b
      let in1 := inside c1 a b
      if in0 && in1 then
        let d0 := v * b - c0 * a
        let d1 := c1 * a - v * b
        if d0 < d1 then (c0, g)
        else if d1 < d0 then (c1, g)
        else if c0 % 2 == 0 then (c0, g) else (c1, g)
      else if in0 then (c0, g)
      else if in1 then (c1, g)
      else search fuel (n + 1)
  search 40 1

/-- Drops trailing zero digits, raising the exponent to match. -/
def trimZeros (c : Nat) (g : Int) : Nat × Int :=
  let rec go : Nat → Nat → Int → Nat × Int
    | 0, c, g => (c, g)
    | fuel + 1, c, g => if c ≠ 0 ∧ c % 10 = 0 then go fuel (c / 10) (g + 1) else (c, g)
  go 40 c g

/-- How a number is laid out: decimal exponents in `[positionalFrom, positionalBelow)` are
written positionally, others as a mantissa and an exponent after `marker`, with an explicit
sign and at least `exponentDigits` digits; and the texts of the values that are no number. -/
structure FloatStyle where
  positionalFrom : Int
  positionalBelow : Int
  marker : String
  exponentDigits : Nat
  nanText : String
  infText : String
  negInfText : String

/-- The shortest general layout: positional for exponents from -4 to 5, else `1e+06`. -/
def FloatStyle.general : FloatStyle :=
  ⟨-4, 6, "e", 2, "NaN", "+Inf", "-Inf"⟩

/-- Text of decimal digits `ds` with the decimal point after `dp` of them. -/
def positional (ds : List Nat) (dp : Int) : String :=
  let text (xs : List Nat) : String := String.ofList (xs.map fun d => Char.ofNat (48 + d))
  if dp ≤ 0 then
    "0." ++ String.ofList (List.replicate (-dp).toNat '0') ++ text ds
  else if ds.length ≤ dp.toNat then
    text ds ++ String.ofList (List.replicate (dp.toNat - ds.length) '0')
  else
    text (ds.take dp.toNat) ++ "." ++ text (ds.drop dp.toNat)

/-- Text of decimal digits `ds` (at least one) as `d.ddd` and an exponent. -/
def scientific (s : FloatStyle) (ds : List Nat) (exp : Int) : String :=
  let text (xs : List Nat) : String := String.ofList (xs.map fun d => Char.ofNat (48 + d))
  let mantissa := match ds with
    | [] => "0"
    | [d] => text [d]
    | d :: rest => text [d] ++ "." ++ text rest
  let expDigits := text (digitsOf exp.natAbs)
  let padded := String.ofList (List.replicate (s.exponentDigits - expDigits.length) '0') ++ expDigits
  mantissa ++ s.marker ++ (if exp < 0 then "-" else "+") ++ padded

/-- The text of a bit pattern of format `f` in style `s`. -/
def FloatStyle.render (s : FloatStyle) (f : BinaryFormat) (bits : Nat) : String :=
  match Binary.ofBits f bits with
  | .nan => s.nanText
  | .infinite neg => if neg then s.negInfText else s.infText
  | .finite neg m e narrow =>
    let sign := if neg then "-" else ""
    if m = 0 then sign ++ "0"
    else
      let (c, g) := shortestDigits m e narrow
      let (c, g) := trimZeros c g
      let ds := digitsOf c
      let dp : Int := ds.length + g
      let exp := dp - 1
      if exp < s.positionalFrom ∨ s.positionalBelow ≤ exp then sign ++ scientific s ds exp
      else sign ++ positional ds dp

end Courier.Number
