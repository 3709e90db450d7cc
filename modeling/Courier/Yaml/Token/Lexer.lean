import Courier.Yaml.Token
import Courier.Text.Utf8

/-!
Cutting YAML text into tokens. Block structure comes from indentation: a key or an entry at a
column deeper than the current one opens a block collection, and a line at a shallower column
closes every collection deeper than it. A key written without `?` is only known to be one when
its `:` arrives, so the place where each such key may start is remembered, one for each level of
flow nesting, and the key token is put in front of it afterwards. Such a key must end on the
line it starts on; a key at the column of its block collection must be completed. Scalars are
read with the folding rules of their style: line breaks in plain and quoted scalars fold into
spaces unless several follow each other, block scalars keep them, or fold them, as indicated.
Every loop reads at least one character per round and is bounded by what is left of the text.
-/

set_option autoImplicit false

namespace Courier.Yaml

/-- A place where a key written without `?` may start. -/
structure SimpleKey where
  possible : Bool
  required : Bool
  number : Nat
  mark : Mark
deriving Inhabited

/-- The state of the cutter: the text, the place reached, the tokens so far, the flow nesting
depth, the block indentation stack, whether a key may start here, the possible keys, where the
window of text read ahead starts, and how many end markers that window holds past the text. -/
structure Lexer where
  input : Array Char
  mark : Mark
  tokens : Array Token
  flowLevel : Nat
  indent : Int
  indents : List Int
  keyAllowed : Bool
  keys : List SimpleKey
  finished : Bool
  window : Nat
  padding : Nat

/-- What a scalar being read holds so far: its text, the first line break of a run of breaks,
the breaks after it, the blanks since the last character, and whether that run has a break. -/
structure Fold where
  text : String
  leadingBreak : String
  trailingBreaks : String
  spaces : String
  inBreaks : Bool

/-- Joins the blanks before the next character into the text. A single line break becomes a
space, further breaks stay as they are, and blanks within a line stay. -/
def Fold.join (f : Fold) : Fold :=
  if f.inBreaks then
    if f.leadingBreak = "\n" then
      if f.trailingBreaks.isEmpty then
        { f with text := f.text.push ' ', leadingBreak := "", inBreaks := false }
      else
        { f with text := f.text ++ f.trailingBreaks, leadingBreak := "", trailingBreaks := "",
                 inBreaks := false }
    else
      { f with text := f.text ++ f.leadingBreak ++ f.trailingBreaks, leadingBreak := "",
               trailingBreaks := "", inBreaks := false }
  else { f with text := f.text ++ f.spaces, spaces := "" }

/-- A fold with nothing read. -/
def Fold.empty : Fold := ⟨"", "", "", "", false⟩

/-- A character with a meaning of its own at the start of a token. -/
def isIndicator (c : Char) : Bool :=
  "-?:,[]\x7b\x7d#&*!|>'\"%@".contains c || c = '\x60'

/-- A character that may follow `!` in a tag. -/
def isTagChar (c : Char) : Bool :=
  isWordChar c || ";/?:@&=+$.%!~*'()".contains c

/-- The value of an escape written with one letter. -/
def simpleEscape (c : Char) : Option String :=
  match c with
  | '0' => some "\x00" | 'a' => some "\x07" | 'b' => some "\x08" | 't' => some "\t"
  | '\t' => some "\t" | 'n' => some "\n" | 'v' => some "\x0b" | 'f' => some "\x0c"
  | 'r' => some "\r" | 'e' => some "\x1b" | ' ' => some " " | '"' => some "\""
  | '\'' => some "'" | '\\' => some "\\" | 'N' => some "\u0085"
  | '_' => some "\u00a0" | 'L' => some "\u2028" | 'P' => some "\u2029"
  | _ => none

/-- The value of a hexadecimal digit. -/
def hexDigit (c : Char) : Option Nat :=
  if c.isDigit then some (c.toNat - 48)
  else if 'a' ≤ c && c ≤ 'f' then some (c.toNat - 87)
  else if 'A' ≤ c && c ≤ 'F' then some (c.toNat - 55)
  else none

namespace Lexer

/-- The character `k` places ahead, NUL past the end. -/
def peek (s : Lexer) (k : Nat) : Char := s.input.getD (s.mark.index + k) '\x00'

/-- Characters left. -/
def remaining (s : Lexer) : Nat := s.input.size - s.mark.index + 1

/-- Moves past one character that is no line break. -/
def next (s : Lexer) : Lexer :=
  { s with mark := ⟨s.mark.index + 1, s.mark.line, s.mark.column + 1⟩ }

/-- Asks for `k` characters ahead. When fewer are left, end markers included, the window of text
read ahead moves to the place reached, as a buffer does when what is unread goes to its front
to be refilled; with the text all read, each refill adds one more end marker. -/
def need (s : Lexer) (k : Nat) : Lexer :=
  if s.input.size - s.mark.index + s.padding < k then
    { s with window := s.mark.index, padding := s.padding + 1 }
  else s

/-- Whether the window of text read ahead starts with a byte order mark. While it does, a line
of block content loses its first character: the mark is looked for at the front of the window,
not at the start of the line. -/
def markAtWindow (s : Lexer) : Bool := s.input.getD s.window ' ' = '\uFEFF'

/-- Moves past `n` characters of one line. -/
def skipN (s : Lexer) : Nat → Lexer
  | 0 => s
  | n + 1 => (s.next).skipN n

/-- Moves past a line break, `\r\n` counting as one. -/
def nextLine (s : Lexer) : Lexer :=
  if s.peek 0 = '\r' && s.peek 1 = '\n' then
    { s with mark := ⟨s.mark.index + 2, s.mark.line + 1, 0⟩ }
  else if isBreak (s.peek 0) then { s with mark := ⟨s.mark.index + 1, s.mark.line + 1, 0⟩ }
  else s

/-- Reads a line break: `\n` for the usual ones, the separators as themselves, nothing at the
end of the text. -/
def readBreak (s : Lexer) : String × Lexer :=
  let c := s.peek 0
  if c = '\u2028' || c = '\u2029' then (String.singleton c, s.nextLine)
  else if isBreak c then ("\n", s.nextLine)
  else ("", s)

/-- Skips characters while `p` holds, never past the end. -/
def skipWhile (p : Lexer → Bool) : Nat → Lexer → Lexer
  | 0, s => s
  | n + 1, s => if p s && !isEnd (s.peek 0) then skipWhile p n s.next else s

/-- Reads characters of one line while `p` holds. -/
def readWhile (p : Char → Bool) : Nat → Lexer → String → String × Lexer
  | 0, s, acc => (acc, s)
  | n + 1, s, acc =>
    let c := s.peek 0
    if p c && !isEnd c && !isBreak c then readWhile p n s.next (acc.push c) else (acc, s)

/-- Whether three `c` and a blank start here. -/
def documentIndicator (s : Lexer) (c : Char) : Bool :=
  s.peek 0 = c && s.peek 1 = c && s.peek 2 = c && isBlankOrEnd (s.peek 3)

/-- Appends a token that started at `start` and stops here. -/
def push (s : Lexer) (kind : TokenKind) (start : Mark) : Lexer :=
  { s with tokens := s.tokens.push ⟨kind, start, s.mark⟩ }

/-- An error at this place, found while reading the construct at `context`. -/
def fail {α : Type} (s : Lexer) (context : Mark) (text : String) : Except Problem α :=
  .error ⟨text, context.line, s.mark.line, true⟩

/-- The possible key of the innermost flow level. -/
def topKey (s : Lexer) : SimpleKey := s.keys.headD default

/-- Replaces the possible key of the innermost flow level. -/
def setTopKey (s : Lexer) (k : SimpleKey) : Lexer := { s with keys := k :: s.keys.tail }

/-- Gives up the possible key of the innermost level; one that must be a key is an error. -/
def removeKey (s : Lexer) : Except Problem Lexer :=
  let k := s.topKey
  if k.possible && k.required then s.fail k.mark "could not find expected ':'"
  else .ok (s.setTopKey { k with possible := false })

/-- Remembers that a key may start here, when one may. -/
def saveKey (s : Lexer) : Except Problem Lexer :=
  if s.keyAllowed then
    let required := s.flowLevel = 0 && s.indent = (s.mark.column : Int)
    match s.removeKey with
    | .ok t => .ok (t.setTopKey ⟨true, required, t.tokens.size, t.mark⟩)
    | .error p => .error p
  else .ok s

/-- Whether a possible key can no longer be one: it started on an earlier line or too far back. -/
def stale (s : Lexer) (k : SimpleKey) : Bool :=
  k.mark.line < s.mark.line || k.mark.index + 1024 < s.mark.index

/-- Gives up every possible key that can no longer be one; one that had to be is an error. -/
def dropStaleKeys (s : Lexer) : Except Problem Lexer :=
  match s.keys.mapM fun k =>
      if k.possible && s.stale k then
        if k.required then s.fail k.mark "could not find expected ':'"
        else .ok { k with possible := false }
      else .ok k with
  | .ok keys => .ok { s with keys := keys }
  | .error p => .error p

/-- Closes every block collection deeper than `column`. -/
def unrollIndent (s : Lexer) (column : Int) : Lexer :=
  if s.flowLevel > 0 then s else go s.indents s
where
  go : List Int → Lexer → Lexer
    | [], s => s
    | i :: rest, s =>
      if column < s.indent then
        go rest { s with tokens := s.tokens.push ⟨.blockEnd, s.mark, s.mark⟩, indent := i,
                         indents := rest }
      else s

/-- Opens a block collection at `column` when it is deeper than the current one, its start
token going at position `number` of the tokens or at their end. -/
def rollIndent (s : Lexer) (column : Int) (number : Option Nat) (kind : TokenKind)
    (mark : Mark) : Lexer :=
  if s.flowLevel > 0 || column ≤ s.indent then s
  else
    let tok : Token := ⟨kind, mark, mark⟩
    { s with indents := s.indent :: s.indents, indent := column,
             tokens := match number with
               | some n => s.tokens.insertIdxIfInBounds n tok
               | none => s.tokens.push tok }

/-- Skips blanks, comments and line breaks up to the next token. A tab may not indent a line
of block content. -/
def toNextToken : Nat → Lexer → Lexer
  | 0, s => s
  | n + 1, s =>
    let s := s.need 1
    let s := if s.mark.column = 0 && s.markAtWindow then s.next else s
    let s := skipWhile (fun t => t.peek 0 = ' ' ||
      ((t.flowLevel > 0 || !t.keyAllowed) && t.peek 0 = '\t')) s.remaining (s.need 1)
    let s := if s.peek 0 = '#' then skipWhile (fun t => !isBreakOrEnd (t.peek 0)) s.remaining s
      else s
    if isBreak (s.peek 0) then
      let s := (s.need 2).nextLine
      toNextToken n (if s.flowLevel = 0 then { s with keyAllowed := true } else s)
    else s

/-- The end of the text: the current line is ended and every block collection closed. -/
def fetchStreamEnd (s : Lexer) : Except Problem Lexer := do
  let s := if s.mark.column ≠ 0 then { s with mark := ⟨s.mark.index, s.mark.line + 1, 0⟩ } else s
  let s := s.unrollIndent (-1)
  let s ← s.removeKey
  return { s.push .streamEnd s.mark with keyAllowed := false, finished := true }

/-- A `---` or `...` line start. -/
def fetchDocumentIndicator (s : Lexer) (kind : TokenKind) : Except Problem Lexer := do
  let s := s.unrollIndent (-1)
  let s ← s.removeKey
  let start := s.mark
  return ({ s with keyAllowed := false }.skipN 3).push kind start

/-- A `[` or `{`. -/
def fetchFlowStart (s : Lexer) (kind : TokenKind) : Except Problem Lexer := do
  let s ← s.saveKey
  let start := s.mark
  let s := { s with keys := default :: s.keys, flowLevel := s.flowLevel + 1, keyAllowed := true }
  return s.next.push kind start

/-- A `]` or `}`. -/
def fetchFlowEnd (s : Lexer) (kind : TokenKind) : Except Problem Lexer := do
  let s ← s.removeKey
  let s := if s.flowLevel > 0 then { s with keys := s.keys.tail, flowLevel := s.flowLevel - 1 }
    else s
  let start := s.mark
  return { s with keyAllowed := false }.next.push kind start

/-- A `,` between flow entries. -/
def fetchFlowEntry (s : Lexer) : Except Problem Lexer := do
  let s ← s.removeKey
  let start := s.mark
  return { s with keyAllowed := true }.next.push .flowEntry start

/-- A `-` entry of a block sequence. -/
def fetchBlockEntry (s : Lexer) : Except Problem Lexer := do
  let s ← if s.flowLevel = 0 then
      if !s.keyAllowed then s.fail s.mark "block sequence entries are not allowed in this context"
      else pure (s.rollIndent s.mark.column none .blockSequenceStart s.mark)
    else pure s
  let s ← s.removeKey
  let start := s.mark
  return { s with keyAllowed := true }.next.push .blockEntry start

/-- A `?` before a key. -/
def fetchKey (s : Lexer) : Except Problem Lexer := do
  let s ← if s.flowLevel = 0 then
      if !s.keyAllowed then s.fail s.mark "mapping keys are not allowed in this context"
      else pure (s.rollIndent s.mark.column none .blockMappingStart s.mark)
    else pure s
  let s ← s.removeKey
  let start := s.mark
  return { s with keyAllowed := s.flowLevel = 0 }.next.push .key start

/-- A `:` before a value. When a key may have started earlier on this line, the key token goes
in front of it and a block mapping may open at its column. -/
def fetchValue (s : Lexer) : Except Problem Lexer := do
  let k := s.topKey
  if k.possible && s.stale k && k.required then s.fail k.mark "could not find expected ':'"
  else if k.possible && !s.stale k then
    let s := { s with tokens := s.tokens.insertIdxIfInBounds k.number ⟨.key, k.mark, k.mark⟩ }
    let s := s.rollIndent k.mark.column (some k.number) .blockMappingStart k.mark
    let s := { s.setTopKey { k with possible := false } with keyAllowed := false }
    let start := s.mark
    return s.next.push .value start
  else
    let s := s.setTopKey { k with possible := false }
    let s ← if s.flowLevel = 0 then
        if !s.keyAllowed then s.fail s.mark "mapping values are not allowed in this context"
        else pure (s.rollIndent s.mark.column none .blockMappingStart s.mark)
      else pure s
    let start := s.mark
    return { s with keyAllowed := s.flowLevel = 0 }.next.push .value start

/-- An anchor `&name` or an alias `*name`. -/
def fetchAnchor (s : Lexer) (isAlias : Bool) : Except Problem Lexer := do
  let s ← s.saveKey
  let start := s.mark
  let s := { s with keyAllowed := false }.next
  let (name, s) := readWhile isWordChar s.remaining s ""
  let c := s.peek 0
  if name.isEmpty || !(isBlankOrEnd c || "?:,]\x7d%@".contains c || c = '\x60') then
    s.fail start "did not find expected alphabetic or numeric character"
  else return s.push (if isAlias then .reference name else .anchor name) start

/-- The length of the UTF-8 sequence a leading byte starts; zero for a byte that starts none. -/
def sequenceLength (b : Nat) : Nat :=
  if b < 0x80 then 1 else if b / 32 = 6 then 2 else if b / 16 = 14 then 3
  else if b / 8 = 30 then 4 else 0

/-- One octet written `%XX`. -/
def escapedOctet (s : Lexer) (start : Mark) : Except Problem (Nat × Lexer) :=
  match s.peek 0, hexDigit (s.peek 1), hexDigit (s.peek 2) with
  | '%', some h, some l => .ok (h * 16 + l, s.skipN 3)
  | _, _, _ => s.fail start "did not find URI escaped octet"

/-- Octets that continue a UTF-8 sequence, each written `%XX`. -/
def escapedTail (start : Mark) : Nat → Lexer → List UInt8 → Except Problem (List UInt8 × Lexer)
  | 0, s, acc => .ok (acc, s)
  | k + 1, s, acc => do
    let (o, s) ← s.escapedOctet start
    if o / 64 ≠ 2 then s.fail start "found an incorrect trailing UTF-8 octet"
    else escapedTail start k s (acc ++ [o.toUInt8])

/-- One character written as the `%XX` escapes of its UTF-8 octets. -/
def escapedChar (s : Lexer) (start : Mark) : Except Problem (List UInt8 × Lexer) := do
  let (first, s) ← s.escapedOctet start
  let w := sequenceLength first
  if w = 0 then s.fail start "found an incorrect leading UTF-8 octet"
  else escapedTail start (w - 1) s [first.toUInt8]

/-- Reads the characters of a tag URI as octets, decoding `%` escapes; the flow indicators
`,[]` belong to it when `brackets` is set. -/
def readUri (brackets : Bool) (start : Mark) : Nat → Lexer → List UInt8 →
    Except Problem (List UInt8 × Lexer)
  | 0, s, acc => .ok (acc, s)
  | n + 1, s, acc =>
    let c := s.peek 0
    if !(isTagChar c || (brackets && ",[]".contains c)) || isEnd c then .ok (acc, s)
    else if c = '%' then do
      let (bytes, t) ← s.escapedChar start
      readUri brackets start n t (acc ++ bytes)
    else readUri brackets start n s.next (acc ++ (String.singleton c).toUTF8.toList)

/-- A tag: `!<uri>`, `!handle!suffix`, `!suffix` or `!` alone. -/
def fetchTag (s : Lexer) : Except Problem Lexer := do
  let s ← s.saveKey
  let start := s.mark
  let s := { s with keyAllowed := false }
  let (handle, suffix, s) ← if s.peek 1 = '<' then do
      let (uri, t) ← readUri true start s.remaining (s.skipN 2) []
      if uri.isEmpty then t.fail start "did not find expected tag URI"
      else if t.peek 0 ≠ '>' then t.fail start "did not find the expected '>'"
      else pure ("", Text.Utf8.toText uri, t.next)
    else
      let (word, t) := readWhile isWordChar s.remaining s.next ""
      if t.peek 0 = '!' then do
        let (uri, t) ← readUri false start t.remaining t.next []
        if uri.isEmpty then t.fail start "did not find expected tag URI"
        else pure ("!" ++ word ++ "!", Text.Utf8.toText uri, t)
      else do
        let (rest, t) ← readUri false start t.remaining t word.toUTF8.toList
        let suffix := Text.Utf8.toText rest
        if suffix.isEmpty then pure ("", "!", t) else pure ("!", suffix, t)
  let c := s.peek 0
  if !isBlankOrEnd c && !(s.flowLevel > 0 && c = ',') then
    s.fail start "did not find expected whitespace or line break"
  else return s.push (.tag handle suffix) start

/-- Reads the decimal number of a version. -/
def readVersion (s : Lexer) (start : Mark) : Except Problem (Nat × Lexer) :=
  let (ds, t) := readWhile Char.isDigit s.remaining s ""
  if 9 < ds.length then t.fail start "found extremely long version number"
  else if ds.isEmpty then t.fail start "did not find expected version number"
  else .ok (ds.foldl (fun acc c => acc * 10 + (c.toNat - 48)) 0, t)

/-- A `%YAML` or `%TAG` line. -/
def fetchDirective (s : Lexer) : Except Problem Lexer := do
  let s := s.unrollIndent (-1)
  let s ← s.removeKey
  let start := s.mark
  let s := { s with keyAllowed := false }.next
  let (name, s) := readWhile isWordChar s.remaining s ""
  if name.isEmpty then s.fail start "could not find expected directive name"
  else if !isBlankOrEnd (s.peek 0) then
    s.fail start "found unexpected non-alphabetical character"
  else
    let (kind, s) ← if name = "YAML" then do
        let s := skipWhile (fun t => isBlank (t.peek 0)) s.remaining s
        let (major, s) ← s.readVersion start
        if s.peek 0 ≠ '.' then s.fail start "did not find expected digit or '.' character"
        else
          let (minor, s) ← s.next.readVersion start
          pure (TokenKind.versionDirective major minor, s)
      else if name = "TAG" then do
        let s := skipWhile (fun t => isBlank (t.peek 0)) s.remaining s
        if s.peek 0 ≠ '!' then s.fail start "did not find expected '!'"
        else
          let (word, s) := readWhile isWordChar s.remaining s.next ""
          let (handle, s) ← if s.peek 0 = '!' then pure ("!" ++ word ++ "!", s.next)
            else if word.isEmpty then pure ("!", s)
            else s.fail start "did not find expected '!'"
          if !isBlank (s.peek 0) then s.fail start "did not find expected whitespace"
          else
            let s := skipWhile (fun t => isBlank (t.peek 0)) s.remaining s
            let (bytes, s) ← readUri true start s.remaining s []
            let pfx := Text.Utf8.toText bytes
            if bytes.isEmpty then s.fail start "did not find expected tag URI"
            else if !isBlankOrEnd (s.peek 0) then
              s.fail start "did not find expected whitespace or line break"
            else pure (TokenKind.tagDirective handle pfx, s)
      else s.fail start "found unknown directive name"
    let s := skipWhile (fun t => isBlank (t.peek 0)) s.remaining s
    let s := if s.peek 0 = '#' then skipWhile (fun t => !isBreakOrEnd (t.peek 0)) s.remaining s
      else s
    if !isBreakOrEnd (s.peek 0) then s.fail start "did not find expected comment or line break"
    else
      let t := s.push kind start
      return t.nextLine

/-- Reads blanks and line breaks inside a scalar into the fold. In a plain scalar a tab may not
stand where the indentation of a new line is expected. -/
def scalarBlanks (tabCheck : Option (Int × Mark)) : Nat → Lexer → Fold →
    Except Problem (Lexer × Fold)
  | 0, t, f => .ok (t, f)
  | n + 1, t, f =>
    let c := t.peek 0
    if isBlank c then
      match tabCheck with
      | some (indent, start) =>
        if f.inBreaks && (t.mark.column : Int) < indent && c = '\t' then
          t.fail start "found a tab character that violates indentation"
        else scalarBlanks tabCheck n (t.next.need 1)
          (if f.inBreaks then f else { f with spaces := f.spaces.push c })
      | none => scalarBlanks tabCheck n (t.next.need 1)
          (if f.inBreaks then f else { f with spaces := f.spaces.push c })
    else if isBreak c then
      let (b, t) := (t.need 2).readBreak
      let t := t.need 1
      if f.inBreaks then scalarBlanks tabCheck n t { f with trailingBreaks := f.trailingBreaks ++ b }
      else scalarBlanks tabCheck n t { f with spaces := "", leadingBreak := b, inBreaks := true }
    else .ok (t, f)

/-- Reads the characters of a plain scalar up to a blank or an indicator that ends it. -/
def plainRun : Nat → Lexer → Fold → Mark → Lexer × Fold × Mark
  | 0, t, f, e => (t, f, e)
  | n + 1, t, f, e =>
    let c := t.peek 0
    if isBlankOrEnd c then (t, f, e)
    else if (c = ':' && isBlankOrEnd (t.peek 1)) ||
        (t.flowLevel > 0 && ",?[]\x7b\x7d".contains c) then (t, f, e)
    else
      let f := if f.inBreaks || !f.spaces.isEmpty then f.join else f
      let t := t.next
      plainRun n (t.need 2) { f with text := f.text.push c } t.mark

/-- Reads a plain scalar line by line while its lines are indented deeper than its block. -/
def plainLoop (indent : Int) (start : Mark) : Nat → Lexer → Fold → Mark →
    Except Problem (Lexer × Fold × Mark)
  | 0, t, f, e => .ok (t, f, e)
  | n + 1, t, f, e =>
    let t := t.need 4
    if t.mark.column = 0 && (t.documentIndicator '-' || t.documentIndicator '.') then .ok (t, f, e)
    else if t.peek 0 = '#' then .ok (t, f, e)
    else
      let (t, f, e) := plainRun t.remaining t f e
      let c := t.peek 0
      if !(isBlank c || isBreak c) then .ok (t, f, e)
      else
        match scalarBlanks (some (indent, start)) t.remaining t f with
        | .error p => .error p
        | .ok (t, f) =>
          if t.flowLevel = 0 && (t.mark.column : Int) < indent then .ok (t, f, e)
          else plainLoop indent start n t f e

/-- A plain scalar. A key may start after it when it ended with a line break. -/
def fetchPlain (s : Lexer) : Except Problem Lexer := do
  let s ← s.saveKey
  let s := { s with keyAllowed := false }
  let start := s.mark
  let (t, f, e) ← plainLoop (s.indent + 1) start s.remaining s Fold.empty start
  let t := { t with tokens := t.tokens.push ⟨.scalar f.text .plain, start, e⟩ }
  return if f.inBreaks then { t with keyAllowed := true } else t

/-- The value of `width` hexadecimal digits ahead. -/
def hexAhead (t : Lexer) (width : Nat) : Option Nat :=
  (List.range width).foldl (fun acc k => match acc, hexDigit (t.peek k) with
    | some v, some d => some (v * 16 + d)
    | _, _ => none) (some 0)

/-- Reads the characters of a quoted scalar up to a blank or its closing quote, decoding
escapes; says whether it stopped at an escaped line break. -/
def quotedRun (single : Bool) (start : Mark) : Nat → Lexer → String →
    Except Problem (Lexer × String × Bool)
  | 0, t, acc => .ok (t, acc, false)
  | n + 1, t, acc =>
    let c := t.peek 0
    if isBlankOrEnd c then .ok (t, acc, false)
    else if single && c = '\'' && t.peek 1 = '\'' then quotedRun single start n (t.skipN 2) (acc.push '\'')
    else if c = (if single then '\'' else '"') then .ok (t, acc, false)
    else if !single && c = '\\' && isBreak (t.peek 1) then .ok (t.next.nextLine, acc, true)
    else if !single && c = '\\' then
      let e := t.peek 1
      match simpleEscape e with
      | some r => quotedRun single start n (t.skipN 2) (acc ++ r)
      | none =>
        let width := if e = 'x' then 2 else if e = 'u' then 4 else if e = 'U' then 8 else 0
        if width = 0 then t.fail start "found unknown escape character"
        else
          let t := t.skipN 2
          match hexAhead t width with
          | none => t.fail start "did not find expected hexdecimal number"
          | some v =>
            if (0xD800 ≤ v && v ≤ 0xDFFF) || 0x10FFFF < v then
              t.fail start "found invalid Unicode character escape code"
            else quotedRun single start n (t.skipN width) (acc.push (Char.ofNat v))
    else quotedRun single start n t.next (acc.push c)

/-- Reads a quoted scalar line by line up to its closing quote. -/
def quotedLoop (single : Bool) (start : Mark) : Nat → Lexer → Fold →
    Except Problem (Lexer × String)
  | 0, t, f => .ok (t, f.text)
  | n + 1, t, f =>
    let t := t.need 4
    if t.mark.column = 0 && (t.documentIndicator '-' || t.documentIndicator '.') then
      t.fail start "found unexpected document indicator"
    else if isEnd (t.peek 0) then t.fail start "found unexpected end of stream"
    else
      match quotedRun single start t.remaining t f.text with
      | .error p => .error p
      | .ok (t, text, escapedBreak) =>
        if t.peek 0 = (if single then '\'' else '"') then .ok (t.next, text)
        else
          match scalarBlanks none t.remaining t { f with text := text, inBreaks := escapedBreak } with
          | .error p => .error p
          | .ok (t, f) => quotedLoop single start n t f.join

/-- A single- or double-quoted scalar. -/
def fetchQuoted (s : Lexer) (single : Bool) : Except Problem Lexer := do
  let s ← s.saveKey
  let s := { s with keyAllowed := false }
  let start := s.mark
  let (t, text) ← quotedLoop single start s.remaining s.next Fold.empty
  return t.push (.scalar text (if single then .singleQuoted else .doubleQuoted)) start

/-- Reads the indentation and empty lines before a line of a block scalar, settling its
indentation from the deepest of them when it is not known yet. -/
def blockBreaks (start : Mark) (parentIndent : Int) : Nat → Lexer → Nat → Nat → String → Mark →
    Except Problem (Lexer × Nat × String × Mark)
  | 0, t, ind, mx, br, e => .ok (t, settle ind mx, br, e)
  | n + 1, t, ind, mx, br, e =>
    let t := skipWhile (fun u => (ind = 0 || u.mark.column < ind) && u.peek 0 = ' ') t.remaining t
    let mx := max mx t.mark.column
    if (ind = 0 || t.mark.column < ind) && t.peek 0 = '\t' then
      t.fail start "found a tab character where an indentation space is expected"
    else if !isBreak (t.peek 0) then .ok (t, settle ind mx, br, e)
    else
      let (b, t) := t.readBreak
      blockBreaks start parentIndent n t ind mx (br ++ b) t.mark
where
  settle (ind mx : Nat) : Nat :=
    if ind ≠ 0 then ind else max (max mx (parentIndent + 1).toNat) 1

/-- Reads the lines of a block scalar at its indentation. -/
def blockLines (literal : Bool) (start : Mark) (parentIndent : Int) (indent : Nat) :
    Nat → Lexer → String → String → String → Bool → Mark →
    Except Problem (Lexer × String × String × String × Mark)
  | 0, t, text, lb, tb, _, e => .ok (t, text, lb, tb, e)
  | n + 1, t, text, lb, tb, leadingBlank, e =>
    if t.mark.column ≠ indent || isEnd (t.peek 0) then .ok (t, text, lb, tb, e)
    else
      let trailingBlank := isBlank (t.peek 0)
      let text := if !literal && lb = "\n" && !leadingBlank && !trailingBlank then
          (if tb.isEmpty then text.push ' ' else text)
        else text ++ lb
      let text := text ++ tb
      let leadingBlank := isBlank (t.peek 0)
      let (line, t) := readWhile (fun _ => true) t.remaining t ""
      let (lb, t) := t.readBreak
      match blockBreaks start parentIndent t.remaining t indent 0 "" t.mark with
      | .error p => .error p
      | .ok (t, _, tb, e) => blockLines literal start parentIndent indent n t (text ++ line) lb tb leadingBlank e

/-- A literal `|` or folded `>` block scalar, with its chomping and indentation indicators. -/
def fetchBlockScalar (s : Lexer) (literal : Bool) : Except Problem Lexer := do
  let s ← s.removeKey
  let s := { s with keyAllowed := true }
  let start := s.mark
  let t := s.next
  let sign (c : Char) : Int := if c = '+' then 1 else -1
  let (chomp, incr, t) ← if t.peek 0 = '+' || t.peek 0 = '-' then
      let ch := sign (t.peek 0)
      let t := t.next
      if (t.peek 0).isDigit then
        if t.peek 0 = '0' then t.fail start "found an indentation indicator equal to 0"
        else pure (ch, (t.peek 0).toNat - 48, t.next)
      else pure (ch, 0, t)
    else if (t.peek 0).isDigit then
      if t.peek 0 = '0' then t.fail start "found an indentation indicator equal to 0"
      else
        let incr := (t.peek 0).toNat - 48
        let t := t.next
        if t.peek 0 = '+' || t.peek 0 = '-' then pure (sign (t.peek 0), incr, t.next)
        else pure (0, incr, t)
    else pure (0, 0, t)
  let t := skipWhile (fun u => isBlank (u.peek 0)) t.remaining t
  let t := if t.peek 0 = '#' then skipWhile (fun u => !isBreakOrEnd (u.peek 0)) t.remaining t else t
  if !isBreakOrEnd (t.peek 0) then t.fail start "did not find expected comment or line break"
  else
    let t := t.nextLine
    let indent : Nat := if incr = 0 then 0
      else if 0 ≤ s.indent then (s.indent + incr).toNat else incr
    let (t, indent, tb, e) ← blockBreaks start s.indent t.remaining t indent 0 "" t.mark
    let (t, text, lb, tb, e) ← blockLines literal start s.indent indent t.remaining t "" "" tb false e
    let text := if chomp ≠ -1 then text ++ lb else text
    let text := if chomp = 1 then text ++ tb else text
    let tok : Token := ⟨.scalar text (if literal then .literal else .folded), start, e⟩
    return { t with tokens := t.tokens.push tok }

/-- Whether a plain scalar may start here. -/
def plainStarts (s : Lexer) : Bool :=
  let c := s.peek 0
  !(isBlankOrEnd c || isIndicator c) ||
    (c = '-' && !isBlank (s.peek 1)) ||
    (s.flowLevel = 0 && (c = '?' || c = ':') && !isBlankOrEnd (s.peek 1))

/-- Reads the next token, after closing the block collections the new line leaves. -/
def fetchNext (s : Lexer) : Except Problem Lexer := do
  let s := s.toNextToken s.remaining
  let s ← s.dropStaleKeys
  let s := (s.unrollIndent s.mark.column).need 4
  let c := s.peek 0
  let lineStart := s.mark.column = 0
  if isEnd c then s.fetchStreamEnd
  else if lineStart && c = '%' then s.fetchDirective
  else if lineStart && s.documentIndicator '-' then s.fetchDocumentIndicator .documentStart
  else if lineStart && s.documentIndicator '.' then s.fetchDocumentIndicator .documentEnd
  else if c = '[' then s.fetchFlowStart .flowSequenceStart
  else if c = '{' then s.fetchFlowStart .flowMappingStart
  else if c = ']' then s.fetchFlowEnd .flowSequenceEnd
  else if c = '}' then s.fetchFlowEnd .flowMappingEnd
  else if c = ',' then s.fetchFlowEntry
  else if c = '-' && isBlankOrEnd (s.peek 1) then s.fetchBlockEntry
  else if c = '?' && (s.flowLevel > 0 || isBlankOrEnd (s.peek 1)) then s.fetchKey
  else if c = ':' && (s.flowLevel > 0 || isBlankOrEnd (s.peek 1)) then s.fetchValue
  else if c = '*' then s.fetchAnchor true
  else if c = '&' then s.fetchAnchor false
  else if c = '!' then s.fetchTag
  else if c = '|' && s.flowLevel = 0 then s.fetchBlockScalar true
  else if c = '>' && s.flowLevel = 0 then s.fetchBlockScalar false
  else if c = '\'' then s.fetchQuoted true
  else if c = '"' then s.fetchQuoted false
  else if s.plainStarts then s.fetchPlain
  else s.fail s.mark "found character that cannot start any token"

/-- Reads tokens until the end of the text or an error. -/
def run : Nat → Lexer → Lexer × Option Problem
  | 0, s => (s, none)
  | n + 1, s =>
    match s.fetchNext with
    | .error p => (s, some p)
    | .ok t => if t.finished then (t, none) else run n t

end Lexer

/-- The tokens of a text, and the error that stopped the reading if there was one, with the
number of tokens that can be used before it shows: reading runs two tokens ahead of their use,
and further while a key may still be starting. A byte order mark at the start is skipped; a
second one right after it stays at the front of the window of text read ahead. A text of fewer
than three bytes is all read at once, so its window already holds an end marker. A control
character anywhere is refused outright. -/
def tokenize (text : String) : Array Token × Option (Problem × Nat) :=
  let cs := text.toList
  if !cs.all allowedChar then (#[], some (⟨"control characters are not allowed", 0, 0, false⟩, 0))
  else
    let cs := match cs with
      | '\uFEFF' :: rest => rest
      | _ => cs
    let input := cs.toArray
    let start : Mark := ⟨0, 0, 0⟩
    let padding := if text.utf8ByteSize < 3 then 1 else 0
    let s : Lexer := ⟨input, start, #[⟨.streamStart, start, start⟩], 0, -1, [], true,
      [default], false, 0, padding⟩
    let (s, problem) := Lexer.run (2 * input.size + 8) s
    let pending := (s.keys.filter (·.possible)).map (·.number)
    let cutoff := pending.foldl min (s.tokens.size - 2)
    (s.tokens, problem.map fun p => (p, cutoff))

end Courier.Yaml
