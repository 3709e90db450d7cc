import Courier.Number.Decimal

/-!
Spans of time in nanoseconds, written as a sequence of decimal numbers each with a unit:
`ns`, `us` (or `µs`, `μs`), `ms`, `s`, `m`, `h`, as in `1h30m` or `1.5s`, with an optional sign.
A lone `0` needs no unit. The value must fit a signed 64-bit count of nanoseconds. A fraction
is worked out in binary64 and cut off at the nanosecond, which can miss the exact value by one. Printing goes the other way: below a second the largest unit that
keeps a whole part is used (`1.5ms`, `250µs`, `7ns`), from a second up hours, minutes and
seconds (`1h2m3.5s`), trailing zeros of the fraction dropped.
-/

set_option autoImplicit false

namespace Courier.Number

/-- The largest magnitude of a count of nanoseconds, `2^63`. -/
def durationBound : Nat := Nat.pow 2 63

/-- Nanoseconds per unit. -/
def durationUnit (u : String) : Option Nat :=
  if u = "ns" then some 1
  else if u = "us" ∨ u = "µs" ∨ u = "μs" then some 1000
  else if u = "ms" then some 1000000
  else if u = "s" then some 1000000000
  else if u = "m" then some 60000000000
  else if u = "h" then some 3600000000000
  else none

/-- The value of decimal digits. -/
def digitValue (ds : List Char) : Nat := ds.foldl (fun acc c => acc * 10 + (c.toNat - 48)) 0

/-- The value of the leading digits of a fraction that keep it within `2^63`, and how many
digits that is. -/
def fractionDigits (ds : List Char) : Nat × Nat :=
  let r := ds.foldl (fun (acc : Nat × Nat × Bool) c =>
    let (x, n, stopped) := acc
    if stopped then acc
    else
      let y := x * 10 + (c.toNat - 48)
      if (Nat.pow 2 63 - 1) / 10 < x || durationBound < y then (x, n, true) else (y, n + 1, false))
    (0, 0, false)
  (r.1, r.2.1)

/-- The nanoseconds that the fraction `f / 10^n` of a unit of `u` nanoseconds adds: the digits
and the unit's share of one step of the last digit are each rounded to binary64, multiplied in
binary64, and the product is cut toward zero. -/
def fractionNanos (f u n : Nat) : Nat :=
  if f = 0 then 0
  else
    let product := do
      let a ← nearestRatio f 1
      let b ← nearestRatio u (Nat.pow 10 n)
      productBits a b
    match product with
    | some p =>
      let (num, den) := exactRatio p
      num / den
    | none => 0

/-- Reads one `<number><unit>` term: its nanoseconds and what follows. -/
def durationTerm (cs : List Char) : Option (Nat × List Char) :=
  let whole := cs.takeWhile Char.isDigit
  let rest := cs.drop whole.length
  let (frac, rest) := match rest with
    | '.' :: r => (r.takeWhile Char.isDigit, r.drop (r.takeWhile Char.isDigit).length)
    | _ => ([], rest)
  if whole.isEmpty && frac.isEmpty then none
  else
    let unit := rest.takeWhile fun c => c != '.' && !c.isDigit
    let rest := rest.drop unit.length
    match durationUnit (String.ofList unit) with
    | none => none
    | some u =>
      let v := digitValue whole
      if durationBound < v || durationBound / u < v then none
      else
        let (f, n) := fractionDigits frac
        let v := v * u + fractionNanos f u n
        if durationBound < v then none else some (v, rest)

/-- Reads terms until the text ends, adding them up. -/
def durationTerms (cs : List Char) (total : Nat) : Option Nat :=
  if cs.isEmpty then some total
  else
    match durationTerm cs with
    | some (v, rest) =>
      if rest.length < cs.length then
        if durationBound < total + v then none else durationTerms rest (total + v)
      else none
    | none => none
termination_by cs.length

/-- Reads a span of time, in nanoseconds. -/
def parseDuration (s : String) : Option Int :=
  let cs := s.toList
  let (negative, cs) := match cs with
    | '-' :: r => (true, r)
    | '+' :: r => (false, r)
    | _ => (false, cs)
  if cs = ['0'] then some 0
  else if cs.isEmpty then none
  else
    match durationTerms cs 0 with
    | some d => if negative then some (-(d : Int)) else if durationBound ≤ d then none else some d
    | none => none

/-- The fraction `v / 10^prec` as `.ddd` without trailing zeros (nothing when it is zero), and
the whole part. -/
def fractionText (v prec : Nat) : String × Nat :=
  let frac := v % Nat.pow 10 prec
  let digits := (List.range prec).reverse.map fun i => frac / Nat.pow 10 i % 10
  let kept := (digits.reverse.dropWhile (· == 0)).reverse
  let text := if kept.isEmpty then "" else "." ++ String.ofList (kept.map fun d => Char.ofNat (48 + d))
  (text, v / Nat.pow 10 prec)

/-- The text of a span of time. -/
def renderDuration (d : Int) : String :=
  let u := d.natAbs
  let sign := if d < 0 then "-" else ""
  if u = 0 then "0s"
  else if u < 1000000000 then
    let (prec, unit) :=
      if u < 1000 then (0, "ns") else if u < 1000000 then (3, "µs") else (6, "ms")
    let (frac, whole) := fractionText u prec
    sign ++ toString whole ++ frac ++ unit
  else
    let (frac, secs) := fractionText u 9
    let s := toString (secs % 60) ++ frac ++ "s"
    let mins := secs / 60
    if mins = 0 then sign ++ s
    else
      let s := toString (mins % 60) ++ "m" ++ s
      let hours := mins / 60
      if hours = 0 then sign ++ s else sign ++ toString hours ++ "h" ++ s

end Courier.Number
