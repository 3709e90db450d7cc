import Courier.Number.Decimal

/-!
What a scalar means. A plain scalar is typed by its text: the null, boolean and special float
words, integers in decimal, hexadecimal (`0x`), octal (`0o`, or a leading `0`) and binary
(`0b`), with `_` between digits ignored, decimal floats, and dates; everything else is a string.
Only the first character is needed to rule most types out. An explicit tag is checked against
the type the text reads as: an integer may stand for a float, a string for anything, but a
text of another type is refused.
-/

set_option autoImplicit false

namespace Courier.Yaml

open Courier.Number

/-- The meaning of a scalar. -/
inductive Resolved where
  | null
  | bool (b : Bool)
  | int (i : Int)
  | uint (n : Nat)
  | float (bits : Nat)
  | timestamp
  | text (s : String)
deriving Inhabited

/-- The prefix of the standard tags. -/
def standardPrefix : String := "tag:yaml.org,2002:"

/-- A tag in its short form: `!!name` for the standard ones. -/
def shortTag (tag : String) : String :=
  if tag.startsWith standardPrefix then "!!" ++ (tag.drop standardPrefix.length).toString else tag

/-- The tags whose scalars are typed by their text. -/
def resolvableTag (tag : String) : Bool :=
  tag = "" || tag = "!!str" || tag = "!!bool" || tag = "!!int" || tag = "!!float" ||
    tag = "!!timestamp" || tag = "!!null"

/-- Words with a fixed meaning. -/
def fixedWord (s : String) : Option (String × Resolved) :=
  if s = "true" || s = "True" || s = "TRUE" then some ("!!bool", .bool true)
  else if s = "false" || s = "False" || s = "FALSE" then some ("!!bool", .bool false)
  else if s = "" || s = "~" || s = "null" || s = "Null" || s = "NULL" then some ("!!null", .null)
  else if s = ".nan" || s = ".NaN" || s = ".NAN" then some ("!!float", .float 0x7FF8000000000001)
  else if s = ".inf" || s = ".Inf" || s = ".INF" || s = "+.inf" || s = "+.Inf" || s = "+.INF" then
    some ("!!float", .float 0x7FF0000000000000)
  else if s = "-.inf" || s = "-.Inf" || s = "-.INF" then some ("!!float", .float 0xFFF0000000000000)
  else if s = "<<" then some ("!!merge", .text "<<")
  else none

/-- What the first character of a plain scalar says it may be: `'S'` a signed number, `'D'` a
number, `'M'` a fixed word, `'.'` a float or fixed word, or nothing to look up. -/
def hint (s : String) : Option Char :=
  match s.toList with
  | [] => some 'N'
  | c :: _ =>
    if c = '+' || c = '-' then some 'S'
    else if c.isDigit then some 'D'
    else if "yYnNtTfFoO~".contains c then some 'M'
    else if c = '.' then some '.'
    else none

/-- The value of digits in `base`, `none` if one is no digit of it or there are none. -/
def digitsIn (base : Nat) (cs : List Char) : Option Nat :=
  if cs.isEmpty then none
  else cs.foldl (fun acc c => match acc with
    | none => none
    | some v =>
      let d := if c.isDigit then c.toNat - 48
        else if 'a' ≤ c && c ≤ 'z' then c.toNat - 87
        else if 'A' ≤ c && c ≤ 'Z' then c.toNat - 55
        else 99
      if d < base then some (v * base + d) else none) (some 0)

/-- An unsigned number whose base is told by its prefix: `0b`, `0o`, `0x`, or a bare leading
`0` for octal; the prefix needs a digit after it. -/
def unsignedAnyBase (cs : List Char) : Option Nat :=
  match cs with
  | [] => none
  | '0' :: b :: rest =>
    if !rest.isEmpty && (b = 'b' || b = 'B') then digitsIn 2 rest
    else if !rest.isEmpty && (b = 'o' || b = 'O') then digitsIn 8 rest
    else if !rest.isEmpty && (b = 'x' || b = 'X') then digitsIn 16 rest
    else digitsIn 8 (b :: rest)
  | ['0'] => some 0
  | _ => digitsIn 10 cs

/-- Splits off a sign. -/
def splitSign (cs : List Char) : Bool × List Char :=
  match cs with
  | '+' :: r => (false, r)
  | '-' :: r => (true, r)
  | r => (false, r)

/-- A signed 64-bit integer in any base. -/
def parseSigned (cs : List Char) (base : Option Nat) : Option Int :=
  let (neg, rest) := splitSign cs
  let magnitude := match base with
    | some b => digitsIn b rest
    | none => unsignedAnyBase rest
  match magnitude with
  | none => none
  | some m =>
    if neg then (if m ≤ Nat.pow 2 63 then some (-(m : Int)) else none)
    else if m < Nat.pow 2 63 then some m else none

/-- An unsigned 64-bit integer in any base, with no sign. -/
def parseUnsigned (cs : List Char) (base : Option Nat) : Option Nat :=
  let magnitude := match base with
    | some b => digitsIn b cs
    | none => unsignedAnyBase cs
  match magnitude with
  | some m => if m < Nat.pow 2 64 then some m else none
  | none => none

/-- Whether `_` stands only between digits, or between a base prefix and a digit. -/
def underscoresFit (s : String) : Bool :=
  let cs := (splitSign s.toList).2
  let (hex, cs, start) := match cs with
    | '0' :: b :: rest =>
      if b = 'x' || b = 'X' then (true, rest, '0')
      else if b = 'b' || b = 'B' || b = 'o' || b = 'O' then (false, rest, '0')
      else (false, cs, '^')
    | _ => (false, cs, '^')
  let last := cs.foldl (fun (saw : Option Char) c => match saw with
    | none => none
    | some w =>
      if c.isDigit || (hex && "abcdefABCDEF".contains c) then some '0'
      else if c = '_' then (if w = '0' then some '_' else none)
      else if w = '_' then none
      else some '!') (some start)
  match last with
  | some w => w ≠ '_'
  | none => false

/-- A float in decimal notation, refused when it overflows. -/
def parseFloatText (s : String) : Option Nat :=
  let plain := if s.contains '_' then (if underscoresFit s then some (s.replace "_" "") else none)
    else some s
  plain.bind parseDecimal

/-- Days in a month of the proleptic Gregorian calendar. -/
def daysIn (month year : Nat) : Nat :=
  if month = 2 then
    (if year % 4 = 0 && (year % 100 ≠ 0 || year % 400 = 0) then 29 else 28)
  else if month = 4 || month = 6 || month = 9 || month = 11 then 30 else 31

/-- A piece of a date layout. -/
inductive DatePart where
  /-- Four digits. -/
  | year
  /-- A character written as itself; a space stands for a run of spaces. -/
  | literal (c : Char)
  /-- One or two digits, from 1 to 12. -/
  | month
  /-- One or two digits, checked against the month once the date is read. -/
  | day
  /-- One or two digits, below 24. -/
  | hour
  /-- One or two digits, below 60. -/
  | minute
  /-- One or two digits, below 60. -/
  | second
  /-- Optionally a point or a comma and digits. -/
  | fraction
  /-- `Z`, or a sign, two digits up to 24, a colon and two digits up to 60. -/
  | zone

/-- The year, month and day read so far. -/
structure DateFields where
  year : Nat
  month : Nat
  day : Nat

/-- The value of a decimal digit. -/
def digitValue (c : Char) : Nat := c.toNat - 48

/-- One digit, or two when a second follows. -/
def shortNumber (cs : List Char) : Option (Nat × List Char) :=
  match cs with
  | a :: b :: rest =>
    if !a.isDigit then none
    else if b.isDigit then some (digitValue a * 10 + digitValue b, rest)
    else some (digitValue a, b :: rest)
  | [a] => if a.isDigit then some (digitValue a, []) else none
  | [] => none

/-- Reads one part of a layout from the front of a text. -/
def DatePart.read (d : DateFields) : DatePart → List Char → Option (DateFields × List Char)
  | .year, a :: b :: c :: e :: rest =>
    if a.isDigit && b.isDigit && c.isDigit && e.isDigit then
      let y := ((digitValue a * 10 + digitValue b) * 10 + digitValue c) * 10 + digitValue e
      some ({ d with year := y }, rest)
    else none
  | .year, _ => none
  | .literal ' ', cs =>
    match cs with
    | [] => some (d, [])
    | c :: _ => if c = ' ' then some (d, cs.dropWhile (· = ' ')) else none
  | .literal c, x :: rest => if x = c then some (d, rest) else none
  | .literal _, [] => none
  | .month, cs => do
    let (m, rest) ← shortNumber cs
    if m < 1 || 12 < m then none else some ({ d with month := m }, rest)
  | .day, cs => do
    let (v, rest) ← shortNumber cs
    some ({ d with day := v }, rest)
  | .hour, cs => do
    let (v, rest) ← shortNumber cs
    if 24 ≤ v then none else some (d, rest)
  | .minute, cs => do
    let (v, rest) ← shortNumber cs
    if 60 ≤ v then none else some (d, rest)
  | .second, cs => do
    let (v, rest) ← shortNumber cs
    if 60 ≤ v then none else some (d, rest)
  | .fraction, cs =>
    match cs with
    | p :: x :: rest =>
      if (p = '.' || p = ',') && x.isDigit then some (d, rest.dropWhile Char.isDigit)
      else some (d, cs)
    | _ => some (d, cs)
  | .zone, 'Z' :: rest => some (d, rest)
  | .zone, sign :: h1 :: h2 :: colon :: m1 :: m2 :: rest =>
    if (sign = '+' || sign = '-') && colon = ':' && h1.isDigit && h2.isDigit && m1.isDigit &&
        m2.isDigit && digitValue h1 * 10 + digitValue h2 ≤ 24 &&
        digitValue m1 * 10 + digitValue m2 ≤ 60 then some (d, rest)
    else none
  | .zone, _ => none

/-- Whether a whole text fits a layout and names a day of its month. -/
def fitsLayout (layout : List DatePart) (cs : List Char) : Bool :=
  let read := layout.foldl (fun acc part => acc.bind fun (d, rest) => part.read d rest)
    (some (⟨0, 0, 0⟩, cs))
  match read with
  | some (d, []) => 1 ≤ d.day && d.day ≤ daysIn d.month d.year
  | _ => false

/-- The layouts a date is tried against: a time after `T` or `t` with a zone, a time after
spaces without one, or the date alone. -/
def dateLayouts : List (List DatePart) :=
  let date : List DatePart := [.year, .literal '-', .month, .literal '-', .day]
  let time : List DatePart :=
    [.hour, .literal ':', .minute, .literal ':', .second, .fraction]
  [date ++ .literal 'T' :: time ++ [.zone], date ++ .literal 't' :: time ++ [.zone],
    date ++ .literal ' ' :: time, date]

/-- Whether a text is a date: four digits and a dash, then one of the date layouts. -/
def isTimestamp (s : String) : Bool :=
  let cs := s.toList
  (cs.takeWhile Char.isDigit).length = 4 && (cs.drop 4).head? = some '-' &&
    dateLayouts.any fun layout => fitsLayout layout cs

/-- The meaning of a plain scalar with tag `tag` in its short form, before the tag is checked. -/
def resolveText (tag : String) (s : String) : String × Resolved :=
  let fallback : String × Resolved := ("!!str", .text s)
  match hint s with
  | none => fallback
  | some h =>
    if tag = "!!str" || tag = "!!binary" then fallback
    else match fixedWord s with
    | some r => r
    | none =>
      if h = 'M' || h = 'N' then fallback
      else if h = '.' then
        match parseFloatText s with
        | some bits => ("!!float", .float bits)
        | none => fallback
      else if (tag = "" || tag = "!!timestamp") && isTimestamp s then ("!!timestamp", .timestamp)
      else
        let plain := s.replace "_" ""
        let cs := plain.toList
        match parseSigned cs none with
        | some i => ("!!int", .int i)
        | none =>
        match parseUnsigned cs none with
        | some n => ("!!int", .uint n)
        | none =>
        match readDecimal plain with
        | some (neg, c, q) =>
          match nearestDecimal neg c q with
          | some bits => ("!!float", .float bits)
          | none => fallback
        | none =>
          let tail (k : Nat) : List Char := cs.drop k
          if plain.startsWith "0b" then
            match parseSigned (tail 2) (some 2) with
            | some i => ("!!int", .int i)
            | none =>
              match parseUnsigned (tail 2) (some 2) with
              | some n => ("!!int", .uint n)
              | none => fallback
          else if plain.startsWith "-0b" then
            match parseSigned ('-' :: tail 3) (some 2) with
            | some i => ("!!int", .int i)
            | none => fallback
          else if plain.startsWith "0o" then
            match parseSigned (tail 2) (some 8) with
            | some i => ("!!int", .int i)
            | none =>
              match parseUnsigned (tail 2) (some 8) with
              | some n => ("!!int", .uint n)
              | none => fallback
          else if plain.startsWith "-0o" then
            match parseSigned ('-' :: tail 3) (some 8) with
            | some i => ("!!int", .int i)
            | none => fallback
          else fallback

/-- The meaning of a scalar under its tag: its type as a short tag and its value, or the reason
the tag does not fit the text. A tag that does not type its scalars leaves the text a string of
that tag. -/
def resolve (tag : String) (s : String) : Except String (String × Resolved) :=
  let tag := shortTag tag
  if !resolvableTag tag then .ok (tag, .text s)
  else
    let (rtag, value) := resolveText tag s
    if tag = "" || tag = rtag || tag = "!!str" || tag = "!!binary" then .ok (rtag, value)
    else if tag = "!!float" && rtag = "!!int" then
      match value with
      | .int i => .ok ("!!float", .float (nearestInt i))
      | _ => .error ("cannot decode " ++ rtag ++ " \x60" ++ s ++ "\x60 as a " ++ tag)
    else .error ("cannot decode " ++ rtag ++ " \x60" ++ s ++ "\x60 as a " ++ tag)

/-- The tag a plain scalar gets from its text. -/
def plainTag (s : String) : String := (resolveText "" s).1

end Courier.Yaml
