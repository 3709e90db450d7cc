import Courier.Yaml.Scalar
import Courier.Yaml.Token
import Courier.Text.Quoted

/-!
Writing string scalars as block mapping values. A string is written plain when reading it back
gives the same string: it must read as a string (not a number, boolean, null or date, nor an
old-style boolean word or sexagesimal number), and its characters must allow plain writing —
no indicator where one would act, no spaces or line breaks at the ends, no tabs, nothing
unprintable. Otherwise it is single-quoted when that can hold it, else double-quoted with
escapes. A string with a line break is written as a literal block, unless its characters rule
that out too.
-/

set_option autoImplicit false

namespace Courier.Yaml

/-- Whether a code point may be written as itself. -/
def printableCode (c : Nat) : Bool :=
  c = 0x0A || (0x20 ≤ c && c ≤ 0x7E) || (0xA0 ≤ c && c ≤ 0xD7FF) ||
    (0xE000 ≤ c && c ≤ 0xFFFD && c ≠ 0xFEFF)

/-- What a scalar's characters show. -/
structure Traits where
  blockIndicators : Bool
  flowIndicators : Bool
  lineBreaks : Bool
  special : Bool
  tabs : Bool
  leadingSpace : Bool
  leadingBreak : Bool
  trailingSpace : Bool
  trailingBreak : Bool
  breakSpace : Bool
  spaceBreak : Bool
  precededByBlank : Bool
  previousSpace : Bool
  previousBreak : Bool

/-- Gathers the traits of the characters of a scalar, the first one flagged. -/
def gather : List Char → Bool → Traits → Traits
  | [], _, f => f
  | c :: rest, first, f =>
    let followed := match rest with
      | [] => true
      | d :: _ => isBlank d
    let last := rest.isEmpty
    let (fi, bi) :=
      if first then
        if "#,[]\x7b\x7d&*!|>'\"%@".contains c || c = '\x60' then (true, true)
        else if c = '?' || c = ':' then (true, followed)
        else if c = '-' then (followed, followed)
        else (false, false)
      else if ",?[]\x7b\x7d".contains c then (true, false)
      else if c = ':' then (true, followed)
      else if c = '#' then (f.precededByBlank, f.precededByBlank)
      else (false, false)
    let f := { f with flowIndicators := f.flowIndicators || fi,
                      blockIndicators := f.blockIndicators || bi }
    let f := if c = '\t' then { f with tabs := true }
      else if !printableCode c.toNat then { f with special := true } else f
    let f := if c = ' ' then
        { f with leadingSpace := f.leadingSpace || first, trailingSpace := f.trailingSpace || last,
                 breakSpace := f.breakSpace || f.previousBreak, previousSpace := true,
                 previousBreak := false }
      else if isBreak c then
        { f with lineBreaks := true, leadingBreak := f.leadingBreak || first,
                 trailingBreak := f.trailingBreak || last, spaceBreak := f.spaceBreak || f.previousSpace,
                 previousSpace := false, previousBreak := true }
      else { f with previousSpace := false, previousBreak := false }
    gather rest false { f with precededByBlank := isBlankOrEnd c }

/-- What a scalar may be written as: plain in a block, single-quoted, as a block scalar. -/
structure Allowed where
  blockPlain : Bool
  singleQuoted : Bool
  block : Bool

/-- The ways a scalar's characters allow it to be written. -/
def allowed (s : String) : Allowed :=
  if s.isEmpty then ⟨true, true, false⟩
  else
    let marker := s.startsWith "---" || s.startsWith "..."
    let f := gather s.toList true ⟨marker, marker, false, false, false, false, false, false, false,
      false, false, true, false, false⟩
    let ends := f.leadingSpace || f.leadingBreak || f.trailingSpace || f.trailingBreak
    let noQuote := f.breakSpace || f.spaceBreak || f.tabs || f.special
    ⟨!(ends || noQuote || f.lineBreaks || f.blockIndicators), !noQuote,
      !(f.trailingSpace || f.spaceBreak || f.special)⟩

/-- The words that were booleans in the older spelling of the format. -/
def isOldBool (s : String) : Bool :=
  ["y", "Y", "yes", "Yes", "YES", "on", "On", "ON", "n", "N", "no", "No", "NO", "off", "Off",
    "OFF"].contains s

/-- Whether `:` groups follow: each one or two digits, two only when the first is below 6,
then an optional fraction. -/
def sexagesimalGroups : List Char → Bool → Bool
  | [], sawGroup => sawGroup
  | [':', d1], _ => d1.isDigit
  | ':' :: d1 :: d2 :: rest, _ =>
    if !d1.isDigit then false
    else if d2.isDigit && d1.toNat ≤ 53 then sexagesimalGroups rest true
    else sexagesimalGroups (d2 :: rest) true
  | '.' :: rest, sawGroup => sawGroup && rest.all fun c => c.isDigit || c = '_'
  | _, _ => false

/-- Whether a text is a sexagesimal number such as `1:30` or `-2:03:15.5`. -/
def isBase60Float (s : String) : Bool :=
  let cs := match s.toList with
    | '+' :: r => r
    | '-' :: r => r
    | r => r
  match cs with
  | d :: rest =>
    d.isDigit && s.contains ':' &&
      sexagesimalGroups (rest.dropWhile fun c => c.isDigit || c = '_') false
  | [] => false

/-- How a string scalar is written. -/
inductive Style where
  | plain
  | singleQuoted
  | doubleQuoted
  | literal
deriving DecidableEq

/-- The style a string value is written in. -/
def chooseStyle (s : String) : Style :=
  let a := allowed s
  if s.contains '\n' then (if a.block then .literal else .doubleQuoted)
  else if plainTag s = "!!str" && !(isBase60Float s || isOldBool s) then
    if a.blockPlain then .plain else if a.singleQuoted then .singleQuoted else .doubleQuoted
  else .doubleQuoted

/-- Uppercase hexadecimal digits of `n`, padded to `width`. -/
def upperHex (width n : Nat) : String :=
  (Text.Quoted.hexPadded width n).toUpper

/-- The escape of a character inside double quotes: a short escape where there is one, else its
code point in hexadecimal. -/
def escapeCode (c : Char) : String :=
  let v := c.toNat
  if v = 0 then "\\0" else if v = 7 then "\\a" else if v = 8 then "\\b"
  else if v = 9 then "\\t" else if v = 10 then "\\n" else if v = 11 then "\\v"
  else if v = 12 then "\\f" else if v = 13 then "\\r" else if v = 0x1b then "\\e"
  else if c = '"' then "\\\"" else if c = '\\' then "\\\\"
  else if v = 0x85 then "\\N" else if v = 0xA0 then "\\_"
  else if v = 0x2028 then "\\L" else if v = 0x2029 then "\\P"
  else if v ≤ 0xFF then "\\x" ++ upperHex 2 v
  else if v ≤ 0xFFFF then "\\u" ++ upperHex 4 v
  else "\\U" ++ upperHex 8 v

/-- The form of a character inside double quotes: escaped when it is unprintable, a byte order
mark, a line break, a quote or a backslash, else itself. -/
def escapeChar (c : Char) : String :=
  let v := c.toNat
  if !(printableCode v) || v = 0xFEFF || isBreak c || c = '"' || c = '\\' then escapeCode c
  else String.singleton c

/-- The characters of a double-quoted scalar. A text that starts with a byte order mark has
every character escaped: the mark is looked for at the start of the text rather than at each
character. -/
def doubleQuotedBody (s : String) : String :=
  if s.startsWith "\uFEFF" then String.join (s.toList.map escapeCode)
  else String.join (s.toList.map escapeChar)

/-- The chomping and indentation indicators of a literal block. -/
def blockHints (s : String) : String :=
  let cs := s.toList
  let indentHint := match cs with
    | c :: _ => if c = ' ' || isBreak c then "4" else ""
    | [] => ""
  let chomp := match cs.reverse with
    | [] => "-"
    | c :: rest =>
      if !isBreak c then "-"
      else match rest with
        | [] => "+"
        | d :: _ => if isBreak d then "+" else ""
  indentHint ++ chomp

/-- The lines of a literal block, each non-empty one indented by `indent`. -/
def literalBody (indent : Nat) : List Char → Bool → String → String
  | [], _, acc => acc
  | c :: rest, afterBreak, acc =>
    if isBreak c then literalBody indent rest true (acc.push c)
    else
      let acc := if afterBreak then acc ++ String.ofList (List.replicate indent ' ') else acc
      literalBody indent rest false (acc.push c)

/-- Where the writer of a single-quoted scalar stands: the column, whether the last character
was a line break, whether the line so far is only indentation, and whether indentation was
written since the scalar started. -/
structure QuoteCursor where
  column : Nat
  afterBreak : Bool
  lineStart : Bool
  indented : Bool

/-- The characters of a single-quoted scalar, quotes doubled. A line break is written as itself;
the first character after it that is no space or break is indented to `indent`, counting the
spaces already written, and a line that is already past that column, or just at it before any
indentation was written, is broken first. -/
def singleQuotedBody (indent : Nat) : List Char → QuoteCursor → String → String
  | [], _, acc => acc
  | c :: rest, q, acc =>
    if c = ' ' then singleQuotedBody indent rest { q with column := q.column + 1 } (acc.push c)
    else if isBreak c then
      let acc := if !q.afterBreak && c = '\n' then acc.push '\n' else acc
      let q := { q with column := 0, afterBreak := true, lineStart := true }
      singleQuotedBody indent rest q (acc.push c)
    else
      let (acc, column, q) :=
        if q.afterBreak then
          let broken := !q.lineStart || indent < q.column || (q.column = indent && !q.indented)
          let (acc, column) := if broken then (acc.push '\n', 0) else (acc, q.column)
          (acc ++ String.ofList (List.replicate (indent - column) ' '), max indent column,
            { q with indented := true })
        else (acc, q.column, q)
      let (acc, column) := if c = '\'' then (acc.push '\'', column + 1) else (acc, column)
      let q := { q with column := column + 1, afterBreak := false, lineStart := false }
      singleQuotedBody indent rest q (acc.push c)

/-- A string written as a value whose block content is indented by `indent`. A literal block
that starts with a line break writes it right after its header. -/
def writeString (indent : Nat) (s : String) : String :=
  match chooseStyle s with
  | .plain => s
  | .singleQuoted => "'" ++ singleQuotedBody indent s.toList ⟨0, false, false, false⟩ "" ++ "'"
  | .doubleQuoted => "\"" ++ doubleQuotedBody s ++ "\""
  | .literal =>
    let header := match s.toList with
      | c :: _ => if isBreak c then "" else "\n"
      | [] => "\n"
    "|" ++ blockHints s ++ header ++ literalBody indent s.toList true ""

end Courier.Yaml
