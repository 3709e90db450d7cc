import Courier.Yaml.Token.Lexer
import Courier.Yaml.Node
import Courier.Yaml.Scalar

/-!
Assembling tokens into the first document of a text. A node may carry an anchor and a tag in
either order before its content; a block node is a block collection or a flow node, and a
mapping value may be a sequence at the mapping's own indentation. A missing key or value is an
empty scalar placed where it would have been. An anchor is known from the moment its node
starts, so aliases inside the node may name it. Only the first document is read: what follows
it is looked at only as far as reading two tokens ahead requires. Each function takes fuel
that every nested call spends; the token count bounds what any text needs.
-/

set_option autoImplicit false

namespace Courier.Yaml

/-- The state of assembly: the tokens, the one reached, the error that ended the tokens with
the number usable before it shows, the anchored nodes, the anchor names in scope (latest
first), and the tag handles. -/
structure TokenCursor where
  tokens : Array Token
  pos : Nat
  stop : Option (Problem × Nat)
  anchors : Array Node
  names : List (String × Nat)
  handles : List (String × String)

/-- The tag a node gets: its explicit tag in short form, else the default of its kind, else
for a plain scalar the type its text reads as. -/
def nodeTag (explicit fallback : String) (value : Option String) : String :=
  if explicit ≠ "" && explicit ≠ "!" then shortTag explicit
  else if fallback ≠ "" then fallback
  else match value with
    | some v => plainTag v
    | none => ""

/-- An empty plain scalar at a place. -/
def emptyScalar (tag : String) (mark : Mark) : Node :=
  .scalar "" (nodeTag tag "" (some "")) .plain (mark.line + 1)

namespace TokenCursor

/-- The token standing for the end of the text. -/
def endToken : Token := ⟨.streamEnd, default, default⟩

/-- The current token; the tokenizing error once it is reached. -/
def peek (p : TokenCursor) : Except ReadError Token :=
  match p.stop with
  | some (problem, cutoff) =>
    if cutoff ≤ p.pos then .error (.malformed problem) else .ok (p.tokens.getD p.pos endToken)
  | none => .ok (p.tokens.getD p.pos endToken)

/-- Moves to the next token. -/
def skip (p : TokenCursor) : TokenCursor := { p with pos := p.pos + 1 }

/-- An assembly error at `problem`, within the construct at `context`. -/
def fail {α : Type} (context : Option Mark) (problem : Mark) (text : String) :
    Except ReadError α :=
  .error (.malformed ⟨text, (context.map (·.line)).getD 0, problem.line, false⟩)

/-- Reserves the slot of an anchored node before its content is read. -/
def reserve (p : TokenCursor) (anchor : Option String) : TokenCursor × Option Nat :=
  match anchor with
  | some a =>
    ({ p with anchors := p.anchors.push default, names := (a, p.anchors.size) :: p.names },
      some p.anchors.size)
  | none => (p, none)

/-- Fills a reserved slot with its finished node. -/
def fill (p : TokenCursor) (slot : Option Nat) (n : Node) : TokenCursor :=
  match slot with
  | some i => { p with anchors := p.anchors.setIfInBounds i n }
  | none => p

/-- The full tag of a handle and suffix, if the handle is declared. -/
def expandTag (p : TokenCursor) (handle suffix : String) : Option String :=
  if handle = "" then some suffix else (p.handles.lookup handle).map (· ++ suffix)

/-- The anchor and tag before a node's content, in either order, with the tag's place. -/
def properties (p : TokenCursor) :
    Except ReadError (Option String × Option (String × String × Mark) × TokenCursor) := do
  let tok ← p.peek
  match tok.kind with
  | .anchor a =>
    let p := p.skip
    let t2 ← p.peek
    match t2.kind with
    | .tag h s => return (some a, some (h, s, t2.start), p.skip)
    | _ => return (some a, none, p)
  | .tag h s =>
    let p := p.skip
    let t2 ← p.peek
    match t2.kind with
    | .anchor a => return (some a, some (h, s, tok.start), p.skip)
    | _ => return (none, some (h, s, tok.start), p)
  | _ => return (none, none, p)

mutual

/-- A node: an alias, or properties and content. In a block, a mapping value may be a
sequence without indentation of its own. -/
def node : Nat → Bool → Bool → TokenCursor → Except ReadError (Node × TokenCursor)
  | 0, _, _, p => do
    let tok ← p.peek
    fail none tok.start "did not find expected node content"
  | n + 1, block, indentless, p => do
    let tok ← p.peek
    match tok.kind with
    | .reference name =>
      match p.names.lookup name with
      | some i => return (.reference name i tok.start.index (tok.start.line + 1), p.skip)
      | none => throw (.unknownAnchor name)
    | _ =>
      let start := tok.start
      let (anchor, tagged, p) ← p.properties
      let tag ← match tagged with
        | none => pure ""
        | some (h, s, m) => match p.expandTag h s with
          | some t => pure t
          | none => fail (some start) m "found undefined tag handle"
      let tok ← p.peek
      let line := start.line + 1
      if indentless && tok.isAny [.blockEntry] then
        let (p, slot) := p.reserve anchor
        let (items, p) ← indentlessEntries n p []
        let v := Node.sequence items (nodeTag tag "!!seq" none) line
        return (v, p.fill slot v)
      else
        match tok.kind with
        | .scalar text style =>
          let fallback := if style = .plain then (if text = "<<" then "!!merge" else "") else "!!str"
          let v := Node.scalar text (nodeTag tag fallback (some text)) style line
          let (p, slot) := p.skip.reserve anchor
          return (v, p.fill slot v)
        | .flowSequenceStart =>
          let (p, slot) := p.reserve anchor
          let (items, p) ← flowItems n tok.start true p.skip []
          let v := Node.sequence items (nodeTag tag "!!seq" none) line
          return (v, p.fill slot v)
        | .flowMappingStart =>
          let (p, slot) := p.reserve anchor
          let (pairs, p) ← flowPairs n tok.start true p.skip []
          let v := Node.mapping pairs (nodeTag tag "!!map" none) line
          return (v, p.fill slot v)
        | _ =>
          if block && tok.isAny [.blockSequenceStart] then
            let (p, slot) := p.reserve anchor
            let (items, p) ← blockEntries n tok.start p.skip []
            let v := Node.sequence items (nodeTag tag "!!seq" none) line
            return (v, p.fill slot v)
          else if block && tok.isAny [.blockMappingStart] then
            let (p, slot) := p.reserve anchor
            let (pairs, p) ← blockPairs n tok.start p.skip []
            let v := Node.mapping pairs (nodeTag tag "!!map" none) line
            return (v, p.fill slot v)
          else if anchor.isSome || tagged.isSome then
            let v := Node.scalar "" (nodeTag tag "" (some "")) .plain line
            let (p, slot) := p.reserve anchor
            return (v, p.fill slot v)
          else fail (some start) tok.start "did not find expected node content"

/-- The entries of a block sequence, up to its end. -/
def blockEntries : Nat → Mark → TokenCursor → List Node → Except ReadError (List Node × TokenCursor)
  | 0, _, p, acc => return (acc.reverse, p)
  | n + 1, start, p, acc => do
    let tok ← p.peek
    match tok.kind with
    | .blockEntry =>
      let p := p.skip
      let t2 ← p.peek
      if t2.isAny [.blockEntry, .blockEnd] then
        blockEntries n start p (emptyScalar "" tok.stop :: acc)
      else
        let (item, p) ← node n true false p
        blockEntries n start p (item :: acc)
    | .blockEnd => return (acc.reverse, p.skip)
    | _ => fail (some start) tok.start "did not find expected '-' indicator"

/-- The entries of a sequence written at its mapping's indentation. -/
def indentlessEntries : Nat → TokenCursor → List Node → Except ReadError (List Node × TokenCursor)
  | 0, p, acc => return (acc.reverse, p)
  | n + 1, p, acc => do
    let tok ← p.peek
    match tok.kind with
    | .blockEntry =>
      let p := p.skip
      let t2 ← p.peek
      if t2.isAny [.blockEntry, .key, .value, .blockEnd] then
        indentlessEntries n p (emptyScalar "" tok.stop :: acc)
      else
        let (item, p) ← node n true false p
        indentlessEntries n p (item :: acc)
    | _ => return (acc.reverse, p)

/-- The pairs of a block mapping, up to its end. -/
def blockPairs : Nat → Mark → TokenCursor → List (Node × Node) →
    Except ReadError (List (Node × Node) × TokenCursor)
  | 0, _, p, acc => return (acc.reverse, p)
  | n + 1, start, p, acc => do
    let tok ← p.peek
    match tok.kind with
    | .key =>
      let p := p.skip
      let t2 ← p.peek
      let (k, p) ← if t2.isAny [.key, .value, .blockEnd] then pure (emptyScalar "" tok.stop, p)
        else node n true true p
      let t3 ← p.peek
      let (v, p) ← if t3.isAny [.value] then
          let p := p.skip
          let t4 ← p.peek
          if t4.isAny [.key, .value, .blockEnd] then pure (emptyScalar "" t3.stop, p)
          else node n true true p
        else pure (emptyScalar "" t3.start, p)
      blockPairs n start p ((k, v) :: acc)
    | .blockEnd => return (acc.reverse, p.skip)
    | _ => fail (some start) tok.start "did not find expected key"

/-- The items of a flow sequence, up to its `]`; `k: v` and `? k` items are one-pair
mappings. -/
def flowItems : Nat → Mark → Bool → TokenCursor → List Node → Except ReadError (List Node × TokenCursor)
  | 0, _, _, p, acc => return (acc.reverse, p)
  | n + 1, start, first, p, acc => do
    let tok ← p.peek
    if tok.isAny [.flowSequenceEnd] then return (acc.reverse, p.skip)
    else
      let (p, tok) ← if first then pure (p, tok)
        else if tok.isAny [.flowEntry] then do
          let p := p.skip
          let t ← p.peek
          pure (p, t)
        else fail (some start) tok.start "did not find expected ',' or ']'"
      if tok.isAny [.flowSequenceEnd] then return (acc.reverse, p.skip)
      else if tok.isAny [.key] then
        let p := p.skip
        let t2 ← p.peek
        let (k, p) ← if t2.isAny [.value, .flowEntry, .flowSequenceEnd] then
            pure (emptyScalar "" t2.stop, p.skip)
          else node n false false p
        let t3 ← p.peek
        let (v, p) ← if t3.isAny [.value] then
            let p := p.skip
            let t4 ← p.peek
            if t4.isAny [.flowEntry, .flowSequenceEnd] then pure (emptyScalar "" t3.start, p)
            else node n false false p
          else pure (emptyScalar "" t3.start, p)
        flowItems n start false p (.mapping [(k, v)] "!!map" (tok.start.line + 1) :: acc)
      else
        let (item, p) ← node n false false p
        flowItems n start false p (item :: acc)

/-- The pairs of a flow mapping, up to its `}`; a key alone has an empty value. -/
def flowPairs : Nat → Mark → Bool → TokenCursor → List (Node × Node) →
    Except ReadError (List (Node × Node) × TokenCursor)
  | 0, _, _, p, acc => return (acc.reverse, p)
  | n + 1, start, first, p, acc => do
    let tok ← p.peek
    if tok.isAny [.flowMappingEnd] then return (acc.reverse, p.skip)
    else
      let (p, tok) ← if first then pure (p, tok)
        else if tok.isAny [.flowEntry] then do
          let p := p.skip
          let t ← p.peek
          pure (p, t)
        else fail (some start) tok.start "did not find expected ',' or '\x7d'"
      if tok.isAny [.flowMappingEnd] then return (acc.reverse, p.skip)
      else if tok.isAny [.key] then
        let p := p.skip
        let t2 ← p.peek
        let (k, p) ← if t2.isAny [.value, .flowEntry, .flowMappingEnd] then
            pure (emptyScalar "" t2.start, p)
          else node n false false p
        let t3 ← p.peek
        let (v, p) ← if t3.isAny [.value] then
            let p := p.skip
            let t4 ← p.peek
            if t4.isAny [.flowEntry, .flowMappingEnd] then pure (emptyScalar "" t4.start, p)
            else node n false false p
          else pure (emptyScalar "" t3.start, p)
        flowPairs n start false p ((k, v) :: acc)
      else
        let (k, p) ← node n false false p
        let t3 ← p.peek
        flowPairs n start false p ((k, emptyScalar "" t3.start) :: acc)

end

/-- The `%YAML` and `%TAG` lines before a document. -/
def directives : Nat → TokenCursor → Bool → List String → Except ReadError TokenCursor
  | 0, p, _, _ => return p
  | n + 1, p, sawVersion, declared => do
    let tok ← p.peek
    match tok.kind with
    | .versionDirective major minor =>
      if sawVersion then fail none tok.start "found duplicate %YAML directive"
      else if major ≠ 1 || minor ≠ 1 then fail none tok.start "found incompatible YAML document"
      else directives n p.skip true declared
    | .tagDirective h pfx =>
      if declared.contains h then fail none tok.start "found duplicate %TAG directive"
      else directives n { p.skip with handles := (h, pfx) :: p.handles } sawVersion (h :: declared)
    | _ => return p

/-- The first document: its root node, or none when the text holds no document. -/
def document (fuel : Nat) (p : TokenCursor) : Except ReadError (Option Node × TokenCursor) := do
  let _ ← p.peek
  let p := p.skip
  let tok ← p.peek
  if tok.isAny [.streamEnd] then return (none, p)
  else
    let (root, p) ← if tok.isAny [.versionDirective 0 0, .tagDirective "" "", .documentStart] then do
        let p ← directives fuel p false []
        let tok ← p.peek
        if !tok.isAny [.documentStart] then fail none tok.start "did not find expected <document start>"
        else
          let p := p.skip
          let tok ← p.peek
          if tok.isAny [.versionDirective 0 0, .tagDirective "" "", .documentStart, .documentEnd,
              .streamEnd] then pure (emptyScalar "" tok.start, p)
          else node fuel true false p
      else node fuel true false p
    let tok ← p.peek
    return (some root, if tok.isAny [.documentEnd] then p.skip else p)

end TokenCursor

/-- The tag handles every document knows. -/
def defaultHandles : List (String × String) := [("!", "!"), ("!!", standardPrefix)]

/-- Reads the first document of a text. -/
def Document.read (text : String) : Except ReadError Document :=
  let (tokens, stop) := tokenize text
  let p : TokenCursor := ⟨tokens, 0, stop, #[], [], defaultHandles⟩
  match TokenCursor.document (4 * tokens.size + 16) p with
  | .ok (root, p) => .ok ⟨root, p.anchors⟩
  | .error e => .error e

end Courier.Yaml
