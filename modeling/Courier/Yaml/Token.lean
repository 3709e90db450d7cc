/-!
The tokens YAML text is cut into, and the errors met while reading it. Places in the text are
counted in characters, lines and columns from zero. An error names a line only when its
construct or its problem lies past the first line: the line of the construct being read when
there is one, else the line of the problem itself; errors found while cutting the text into
tokens count lines from one, those found while assembling the tokens count them from zero.
-/

set_option autoImplicit false

namespace Courier.Yaml

/-- A place in the text. -/
structure Mark where
  index : Nat
  line : Nat
  column : Nat
deriving Inhabited

/-- How a scalar was written. -/
inductive ScalarStyle where
  | plain
  | singleQuoted
  | doubleQuoted
  | literal
  | folded
deriving DecidableEq, Inhabited

/-- What a token is. -/
inductive TokenKind where
  | streamStart
  | streamEnd
  | versionDirective (major minor : Nat)
  | tagDirective (handle pfx : String)
  | documentStart
  | documentEnd
  | blockSequenceStart
  | blockMappingStart
  | blockEnd
  | flowSequenceStart
  | flowSequenceEnd
  | flowMappingStart
  | flowMappingEnd
  | blockEntry
  | flowEntry
  | key
  | value
  | reference (name : String)
  | anchor (name : String)
  | tag (handle suffix : String)
  | scalar (text : String) (style : ScalarStyle)
deriving Inhabited

/-- The constructor of a token kind, as a number, for telling kinds apart. -/
def TokenKind.code : TokenKind → Nat
  | .streamStart => 0
  | .streamEnd => 1
  | .versionDirective .. => 2
  | .tagDirective .. => 3
  | .documentStart => 4
  | .documentEnd => 5
  | .blockSequenceStart => 6
  | .blockMappingStart => 7
  | .blockEnd => 8
  | .flowSequenceStart => 9
  | .flowSequenceEnd => 10
  | .flowMappingStart => 11
  | .flowMappingEnd => 12
  | .blockEntry => 13
  | .flowEntry => 14
  | .key => 15
  | .value => 16
  | .reference .. => 17
  | .anchor .. => 18
  | .tag .. => 19
  | .scalar .. => 20

/-- A token and where it starts and stops. -/
structure Token where
  kind : TokenKind
  start : Mark
  stop : Mark
deriving Inhabited

/-- Whether a token is of one of the kinds listed. -/
def Token.isAny (t : Token) (kinds : List TokenKind) : Bool :=
  kinds.any fun k => k.code = t.kind.code

/-- A reading error: its text, the line of the construct it was found in (zero when there is
none), the line of the problem, and whether it was found while cutting tokens. -/
structure Problem where
  text : String
  contextLine : Nat
  problemLine : Nat
  scanning : Bool

/-- The line an error message names, if any. -/
def Problem.line (p : Problem) : Option Nat :=
  let l := if p.contextLine ≠ 0 then p.contextLine else p.problemLine
  if l = 0 then none else some (if p.scanning then l + 1 else l)

/-- The text of a reading error. -/
def Problem.message (p : Problem) : String :=
  match p.line with
  | some l => "yaml: line " ++ toString l ++ ": " ++ p.text
  | none => "yaml: " ++ p.text

/-- A line break character. -/
def isBreak (c : Char) : Bool :=
  c = '\r' || c = '\n' || c = '\u0085' || c = '\u2028' || c = '\u2029'

/-- A space or a tab. -/
def isBlank (c : Char) : Bool := c = ' ' || c = '\t'

/-- The character standing for the end of the text. -/
def isEnd (c : Char) : Bool := c = '\x00'

/-- A blank, a line break or the end. -/
def isBlankOrEnd (c : Char) : Bool := isBlank c || isBreak c || isEnd c

/-- A line break or the end. -/
def isBreakOrEnd (c : Char) : Bool := isBreak c || isEnd c

/-- A character of an anchor name or a tag handle: a letter, a digit, `_` or `-`. -/
def isWordChar (c : Char) : Bool := c.isAlphanum || c = '_' || c = '-'

/-- A character the text may hold at all. -/
def allowedChar (c : Char) : Bool :=
  let n := c.toNat
  n = 0x09 || n = 0x0A || n = 0x0D || (0x20 ≤ n && n ≤ 0x7E) || n = 0x85 ||
    (0xA0 ≤ n && n ≤ 0xD7FF) || (0xE000 ≤ n && n ≤ 0xFFFD) || (0x10000 ≤ n && n ≤ 0x10FFFF)

end Courier.Yaml
