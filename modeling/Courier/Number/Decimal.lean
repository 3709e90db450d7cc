/-!
The binary64 number nearest to a decimal one. The decimal `c · 10^q` is an exact ratio of two
naturals; the binary exponent is the one that puts the quotient in `[2^52, 2^53)` (or the
smallest one, for subnormals), and the remainder decides the last bit, ties going to the even
neighbour. A result past the largest finite number is refused: the caller decides what an
overflow means. Decimal text is read with an optional sign, digits with an optional point, and
an optional exponent after `e` or `E`.
-/

set_option autoImplicit false

namespace Courier.Number

/-- The sign bit of a binary64 pattern. -/
def signBit : Nat := Nat.pow 2 63

/-- The quotient `n / d` rounded to the nearest natural, ties to even. -/
def roundHalfEven (n d : Nat) : Nat :=
  let q := n / d
  let r := n % d
  if d < 2 * r then q + 1 else if 2 * r = d then q + q % 2 else q

/-- `n / (d · 2^e)` rounded to the nearest natural, ties to even. -/
def scaledQuotient (n d : Nat) (e : Int) : Nat :=
  if 0 ≤ e then roundHalfEven n (d * Nat.pow 2 e.toNat) else roundHalfEven (n * Nat.pow 2 (-e).toNat) d

/-- The bits of the binary64 number nearest to `n / d`, for positive `d`; `none` when it is
past the largest finite number. -/
def nearestRatio (n d : Nat) : Option Nat :=
  if n = 0 then some 0
  else
    let e0 : Int := (Nat.log2 n : Int) - (Nat.log2 d : Int) - 52
    let fits (e : Int) : Bool :=
      if 0 ≤ e then Nat.pow 2 52 * (d * Nat.pow 2 e.toNat) ≤ n
      else Nat.pow 2 52 * d ≤ n * Nat.pow 2 (-e).toNat
    let e := if fits e0 then e0 else e0 - 1
    let e := max e (-1074)
    let q := scaledQuotient n d e
    let (q, e) := if q = Nat.pow 2 53 then (Nat.pow 2 52, e + 1) else (q, e)
    if q < Nat.pow 2 52 then some q
    else if 2046 < e + 1075 then none
    else some ((e + 1075).toNat * Nat.pow 2 52 + (q - Nat.pow 2 52))

/-- A finite non-negative binary64 pattern as an exact ratio of naturals. -/
def exactRatio (bits : Nat) : Nat × Nat :=
  let field := bits / Nat.pow 2 52 % 2048
  let fraction := bits % Nat.pow 2 52
  if field = 0 then (fraction, Nat.pow 2 1074)
  else if 1075 ≤ field then ((fraction + Nat.pow 2 52) * Nat.pow 2 (field - 1075), 1)
  else (fraction + Nat.pow 2 52, Nat.pow 2 (1075 - field))

/-- The binary64 product of two finite non-negative patterns, rounded to nearest; `none` past
the largest finite number. -/
def productBits (a b : Nat) : Option Nat :=
  let (na, da) := exactRatio a
  let (nb, db) := exactRatio b
  nearestRatio (na * nb) (da * db)

/-- Decimal digits written out: how many there are in a positive number. -/
def decimalLength (n : Nat) : Nat := (Nat.repr n).length

/-- The bits of the binary64 number nearest to `c · 10^q`, with its sign; `none` when its
magnitude rounds past the largest finite number. Magnitudes beyond `10^310` overflow and those
below `10^-330` round to zero without being computed. -/
def nearestDecimal (negative : Bool) (c : Nat) (q : Int) : Option Nat :=
  let sign := if negative then signBit else 0
  if c = 0 then some sign
  else
    let top : Int := q + decimalLength c
    if 311 < top then none
    else if top < -330 then some sign
    else
      let r := if 0 ≤ q then nearestRatio (c * Nat.pow 10 q.toNat) 1 else nearestRatio c (Nat.pow 10 (-q).toNat)
      r.map (· + sign)

/-- The binary64 number nearest to an integer. -/
def nearestInt (i : Int) : Nat :=
  (nearestDecimal (i < 0) i.natAbs 0).getD 0

/-- Reads digits: their value and count. -/
def readDigits (cs : List Char) : Nat × Nat × List Char :=
  let ds := cs.takeWhile Char.isDigit
  (ds.foldl (fun acc c => acc * 10 + (c.toNat - 48)) 0, ds.length, cs.drop ds.length)

/-- Reads a decimal number, `[+-]? (digits (. digits?)? | . digits) ([eE] [+-]? digits)?`, as
its sign, its digits as one natural, and the power of ten they are scaled by. -/
def readDecimal (s : String) : Option (Bool × Nat × Int) :=
  let cs := s.toList
  let (negative, cs) := match cs with
    | '-' :: r => (true, r)
    | '+' :: r => (false, r)
    | r => (false, r)
  let (whole, wholeCount, cs) := readDigits cs
  let (frac, fracCount, cs) := match cs with
    | '.' :: r => readDigits r
    | r => (0, 0, r)
  if wholeCount + fracCount = 0 then none
  else
    let mantissa := whole * Nat.pow 10 fracCount + frac
    let expPart : Option Int := match cs with
      | [] => some 0
      | c :: r =>
        if c = 'e' ∨ c = 'E' then
          let (eneg, r) := match r with
            | '-' :: t => (true, t)
            | '+' :: t => (false, t)
            | t => (false, t)
          let (v, count, rest) := readDigits r
          if count = 0 ∨ !rest.isEmpty then none
          else some (if eneg then -(v : Int) else v)
        else none
    expPart.map fun x => (negative, mantissa, x - fracCount)

/-- The bits of the binary64 number nearest to decimal text, `none` when the text is no
decimal number or the number is too large. -/
def parseDecimal (s : String) : Option Nat :=
  match readDecimal s with
  | some (negative, c, q) => nearestDecimal negative c q
  | none => none

end Courier.Number
