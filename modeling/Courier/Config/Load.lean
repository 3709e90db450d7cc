import Courier.Config.Basic
import Courier.Yaml.Document
import Courier.Number.Duration
import Courier.Number.Shortest
import Courier.Text.Quoted
import Courier.Text.Utf8
import Courier.Text.Base64

/-!
Reading a configuration from YAML. The document is laid over the defaults: a mapping sets the
settings it names and leaves the rest, unknown names are ignored, and a null leaves a setting
as it was. A value of the wrong type is noted and reading goes on; all such notes are reported
together, and a mapping that repeats a key, or a name that comes back through an alias, is
reported without being read again. Integers take integral values and floats up to `2^63`, cut
toward zero; spans of time take only their written form, such as `1m30s`; booleans also take
the words `yes`, `on`, `no` and `off`; reals take integers and floats; strings take any
scalar's text, and `!!binary` text gives the bytes it encodes in base64.

A `<<` key merges the mappings it names once the mapping's own keys are read, and a merged
mapping sets no name that the mapping, or a mapping merged before it, already gave. The names
taken are gathered by reading every key of the mapping as a loose value; a key that is itself
a mapping or a sequence cannot be gathered, and that stops the whole program, not only the
reading. Some faults end reading at once: a tag that does not fit its text, an alias inside its
own expansion, a merge of anything but mappings, and a document that is mostly aliases
expanded again and again.
-/

set_option autoImplicit false

namespace Courier.Config

open Courier.Yaml Courier.Number Courier.Text

/-- What a part of the document is read into: the whole configuration, a section, or one
setting. -/
inductive Target where
  | root
  | part (name typeName : String) (fields : List (String × Kind))
  | field (sec name : String) (kind : Kind)

/-- The type name a target is reported under. -/
def Target.typeName : Target → String
  | .root => rootTypeName
  | .part _ t _ => t
  | .field _ _ k => k.typeName

/-- The target a key of a mapping leads to. -/
def Target.child : Target → String → Option Target
  | .root, n => match layout.find? (·.1 = n) with
    | some (s, t, fs) => some (.part s t fs)
    | none => none
  | .part s _ fs, n => (fs.lookup n).map fun k => .field s n k
  | .field .., _ => none

/-- A value that can be kept in a set: what a scalar reads as when no type is asked for. Only
text ever matches the name of a setting. -/
inductive Key where
  | text (bytes : List UInt8)
  | int (i : Int)
  | uint (n : Nat)
  | float (bits : Nat)
  | bool (b : Bool)
  | null
  | time (written : String)

/-- Whether two keys are the same; a NaN is the same as nothing, and the two zeros are one. -/
def Key.same : Key → Key → Bool
  | .text a, .text b => a == b
  | .int a, .int b => a == b
  | .uint a, .uint b => a == b
  | .float a, .float b => !isNaN a && !isNaN b && orderKey a == orderKey b
  | .bool a, .bool b => a == b
  | .null, .null => true
  | .time a, .time b => a == b
  | _, _ => false

/-- Hexadecimal digits of a number, lowercase. -/
def lowerHex (n : Nat) : String := String.ofList (Nat.toDigits 16 n)

/-- A key written as a literal of its type. -/
def Key.literal : Key → String
  | .text bs => Quoted.quoteBytes bs
  | .int i => toString i
  | .uint n => "0x" ++ lowerHex n
  | .float bits => FloatStyle.general.render BinaryFormat.binary64 bits
  | .bool b => if b then "true" else "false"
  | .null => "interface \x7b\x7d(nil)"
  | .time w => w

/-- What a node reads as when no type is asked for, as far as a set of keys can tell: a
scalar's value, a mapping whose keys are all strings or not, or a sequence. -/
inductive Loose where
  | scalar (k : Key)
  | table (textKeys : Bool)
  | list (items : List Loose)

/-- The type of a mapping read loosely. -/
def tableTypeName (textKeys : Bool) : String :=
  if textKeys then "map[string]interface \x7b\x7d" else "map[interface \x7b\x7d]interface \x7b\x7d"

/-- The type of a loose value. -/
def Loose.typeName : Loose → String
  | .scalar _ => "interface \x7b\x7d"
  | .table t => tableTypeName t
  | .list _ => "[]interface \x7b\x7d"

mutual

/-- A loose value written as a literal of its type; a mapping's entries are left out. -/
def Loose.literal : Loose → String
  | .scalar k => k.literal
  | .table t => tableTypeName t ++ "\x7b\x7d"
  | .list items => "[]interface \x7b\x7d\x7b" ++ ", ".intercalate (Loose.literals items) ++ "\x7d"

/-- The literals of loose values. -/
def Loose.literals : List Loose → List String
  | [] => []
  | v :: rest => v.literal :: Loose.literals rest

end

/-- Why a configuration could not be read: an error reading reports, or a fault that stops the
whole program. -/
inductive LoadError where
  | invalid (message : String)
  | crash (message : String)

/-- What reading has gathered: the configuration so far, the type errors, the names a merge
may no longer set, the aliases being expanded by their places, how deep in aliases reading
is, and how many nodes were read, in all and inside aliases. -/
structure DecodeState where
  config : Config
  errors : Array String
  merged : Option (List Key)
  active : List Nat
  depth : Nat
  reads : Nat
  aliasedReads : Nat

/-- Reading with gathered state and faults that end it. -/
abbrev Decode := StateT DecodeState (Except LoadError)

/-- Ends reading with an error. -/
def fault {α : Type} (message : String) : Decode α := throw (.invalid ("yaml: " ++ message))

/-- Stops the program. -/
def crash {α : Type} (message : String) : Decode α := throw (.crash ("runtime error: " ++ message))

/-- Whether aliases make up too much of the reading: more than 99% of up to 400000 reads, a
share that falls evenly to 10% at 4000000 reads and stays there. -/
def overAliased (aliased reads : Nat) : Bool :=
  if reads ≤ 400000 then 99 * reads < 100 * aliased
  else if 4000000 ≤ reads then reads < 10 * aliased
  else (356400000 - 89 * (reads - 400000)) * reads < 360000000 * aliased

/-- Counts one node read; a document past a thousand reads, more than a hundred of them inside
aliases, that is mostly aliases is refused. -/
def countRead : Decode Unit := do
  let st ← get
  let reads := st.reads + 1
  let aliased := if 0 < st.depth then st.aliasedReads + 1 else st.aliasedReads
  set { st with reads := reads, aliasedReads := aliased }
  if 100 < aliased && 1000 < reads && overAliased aliased reads then
    fault "document contains excessive aliasing"

/-- A value as type errors show it: in full up to ten bytes, else its first seven bytes. -/
def shown (value : String) : String :=
  let bytes := value.toUTF8.toList
  if 10 < bytes.length then " \x60" ++ Utf8.toText (bytes.take 7) ++ "...\x60"
  else " \x60" ++ value ++ "\x60"

/-- Notes that a node could not be read into a type. -/
def typeError (n : Node) (tag typeName : String) : Decode Unit :=
  let tag := if n.tag ≠ "" then n.tag else tag
  let valuePart := if tag ≠ "!!seq" && tag ≠ "!!map" then shown n.text else ""
  modify fun st => { st with errors := st.errors.push ("line " ++ toString n.line ++
    ": cannot unmarshal " ++ shortTag tag ++ valuePart ++ " into " ++ typeName) }

/-- A scalar as reading takes it: resolved under its tag, or, under `!!binary`, the bytes its
base64 text encodes. -/
inductive Reading where
  | resolved (tag : String) (r : Resolved)
  | binary (bytes : List UInt8)

/-- The tag a reading is reported under. -/
def Reading.tag : Reading → String
  | .resolved t _ => t
  | .binary _ => "!!binary"

/-- Whether a reading is null. -/
def Reading.isNull : Reading → Bool
  | .resolved _ .null => true
  | _ => false

/-- How a scalar node reads: quoted and block strings tagged as strings are their text,
`!!binary` text must be base64, and any other is resolved under its tag. -/
def reading (value tag : String) (style : ScalarStyle) : Except LoadError Reading :=
  if shortTag tag = "!!str" && style ≠ .plain then .ok (.resolved "!!str" (.text value))
  else match resolve tag value with
    | .ok (rtag, r) =>
      if rtag = "!!binary" then
        match Base64.decode value with
        | some bs => .ok (.binary bs)
        | none => .error (.invalid "yaml: !!binary value contains invalid base64 data")
      else .ok (.resolved rtag r)
    | .error m => .error (.invalid ("yaml: " ++ m))

/-- The key a scalar reads as when no type is asked for. -/
def Reading.key (value : String) : Reading → Key
  | .binary bs => .text bs
  | .resolved _ r => match r with
    | .null => .null
    | .bool b => .bool b
    | .int i => .int i
    | .uint n => .uint n
    | .float bits => .float bits
    | .timestamp => .time value
    | .text s => .text (bytesOf s)

/-- The pattern of `2^63`, the largest float an integer setting takes. -/
def intLimitBits : Nat := 0x43E0000000000000

/-- A float cut toward zero to a 64-bit integer; out of range it is the least one. -/
def truncateFloat (bits : Nat) : Int :=
  let e := (bits / Nat.pow 2 52) % 2048
  let sig := bits % Nat.pow 2 52 + Nat.pow 2 52
  let magnitude : Nat := if e = 0 then 0
    else if 1075 ≤ e then sig * Nat.pow 2 (e - 1075) else sig / Nat.pow 2 (1075 - e)
  let v : Int := if (bits / Nat.pow 2 63) % 2 = 1 then -(magnitude : Int) else magnitude
  if e = 2047 || v < -Int.pow 2 63 || Int.pow 2 63 ≤ v then -Int.pow 2 63 else v

/-- Words a boolean setting takes for true. -/
def yesWords : List String := ["y", "Y", "yes", "Yes", "YES", "on", "On", "ON"]

/-- Words a boolean setting takes for false. -/
def noWords : List String := ["n", "N", "no", "No", "NO", "off", "Off", "OFF"]

/-- A word as a boolean setting. -/
def flagWord (s : String) : Option Setting :=
  if yesWords.contains s then some (.flag true)
  else if noWords.contains s then some (.flag false) else none

/-- A scalar's value as a setting of a kind, if it can be one. Decoded `!!binary` bytes are a
string: a string setting takes them as they are, a span of time or a boolean reads them as
text. -/
def convert (kind : Kind) (value : String) : Reading → Option Setting
  | .binary bs =>
    match kind with
    | .text => some (.text bs)
    | .duration => if Utf8.valid bs then (parseDuration (Utf8.toText bs)).map .duration else none
    | .flag => if Utf8.valid bs then flagWord (Utf8.toText bs) else none
    | _ => none
  | .resolved _ r =>
    match kind, r with
    | .text, _ => some (.text (bytesOf value))
    | .int, .int i => some (.int i)
    | .int, .float b =>
      if !isNaN b && !floatLt intLimitBits b then some (.int (truncateFloat b)) else none
    | .duration, .text s => (parseDuration s).map .duration
    | .flag, .bool b => some (.flag b)
    | .flag, .text s => flagWord s
    | .real, .int i => some (.real (nearestInt i))
    | .real, .uint n => some (.real (nearestInt n))
    | .real, .float b => some (.real b)
    | _, _ => none

/-- The errors for keys a mapping repeats: each later one against each earlier one. -/
def duplicates : List (Node × Node) → List String
  | [] => []
  | (k, _) :: rest =>
    (rest.filter fun (later, _) => k.sameKey later).map (fun (later, _) =>
      "line " ++ toString later.line ++ ": mapping key " ++ Quoted.quoteBytes later.text.toUTF8.toList ++
        " already defined at line " ++ toString k.line) ++ duplicates rest

/-- Notes repeated keys of a mapping; says whether there were any. -/
def noteDuplicates (entries : List (Node × Node)) : Decode Bool := do
  let dups := duplicates entries
  modify fun st => { st with errors := st.errors ++ dups.toArray }
  return !dups.isEmpty

/-- Whether a key asks for a merge. -/
def isMerge : Node → Bool
  | .scalar v tag _ _ => v = "<<" && (tag = "" || tag = "!" || shortTag tag = "!!merge")
  | _ => false

/-- The tag of a node, an alias taking its anchored node's. -/
def tagIn (anchors : Array Node) : Node → String
  | .reference _ t _ _ => (anchors.getD t default).tag
  | n => n.tag

/-- Whether a mapping's keys are all strings, which makes it a mapping from strings when read
loosely. -/
def textKeyed (anchors : Array Node) (entries : List (Node × Node)) : Bool :=
  entries.all fun (k, _) => tagIn anchors k = "!!str" || tagIn anchors k = "!!merge"

/-- Whether the anchored node at a slot is a mapping. -/
def anchorsMapping (anchors : Array Node) (i : Nat) : Bool := (anchors.getD i default).kind = 2

/-- The fault of merging something that is no mapping. -/
def wantMap : String := "map merge requires map or sequence of maps as the value"

/-- Notes a reading error. -/
def note (message : String) : Decode Unit :=
  modify fun st => { st with errors := st.errors.push message }

/-- What a node is read into: part of the configuration, a string such as a key of a section, a
loose value, or a loose mapping that a merge adds to. -/
inductive Sink where
  | config (t : Target)
  | name
  | loose
  | table (textKeys : Bool)

/-- The type name a sink is reported under. -/
def Sink.typeName : Sink → String
  | .config t => t.typeName
  | .name => "string"
  | .loose => "interface \x7b\x7d"
  | .table t => tableTypeName t

/-- What reading a node gave: nothing when it does not fit, a setting stored in the
configuration, or a value. -/
inductive Decoded where
  | unfit
  | stored
  | value (v : Loose)

/-- Reads a scalar into a sink. A null fits only a loose value; a string takes the written
text, or the bytes of `!!binary` text. -/
def decodeScalar (node : Node) (value : String) (rd : Reading) : Sink → Decode Decoded
  | .config t =>
    if rd.isNull then pure .unfit
    else match t with
      | .field sec name kind =>
        match convert kind value rd with
        | some v => do
          modify fun st => { st with config := st.config.withSetting sec name v }
          pure .stored
        | none => do
          typeError node rd.tag t.typeName
          pure .unfit
      | _ => do
        typeError node rd.tag t.typeName
        pure .unfit
  | .name =>
    match rd with
    | .binary bs => pure (.value (.scalar (.text bs)))
    | .resolved _ .null => pure .unfit
    | _ => pure (.value (.scalar (.text (bytesOf value))))
  | .loose => pure (.value (.scalar (rd.key value)))
  | .table t =>
    if rd.isNull then pure .unfit
    else do
      typeError node rd.tag (tableTypeName t)
      pure .unfit

/-- Whether a key is in the set of names a merge may no longer set. Looking up a mapping or a
sequence stops the program: neither can be kept in a set. -/
def alreadyMerged (seen : List Key) : Loose → Decode Bool
  | .scalar k => pure (seen.any k.same)
  | other => crash ("hash of unhashable type " ++ other.typeName)

mutual

/-- Reads a node into a sink, counting the read against the aliasing limit. An alias is read as
its anchored node, and meeting it again inside that reading is a fault. -/
def decode : Nat → Array Node → Sink → Node → Decode Decoded
  | 0, _, _, _ => pure .unfit
  | n + 1, anchors, sink, node => do
    countRead
    match node with
    | .reference name target place _ => do
      if (← get).active.contains place then fault ("anchor '" ++ name ++ "' value contains itself")
      modify fun st => { st with active := place :: st.active, depth := st.depth + 1 }
      let r ← decode n anchors sink (anchors.getD target default)
      modify fun st => { st with active := st.active.erase place, depth := st.depth - 1 }
      pure r
    | .scalar value tag style _ => do
      let rd ← (reading value tag style : Except LoadError Reading)
      decodeScalar node value rd sink
    | .sequence items _ _ =>
      match sink with
      | .loose => do
        let vs ← decodeItems n anchors items
        pure (.value (.list vs))
      | _ => do
        typeError node "!!seq" sink.typeName
        pure .unfit
    | .mapping entries _ _ => do
      if ← noteDuplicates entries then pure .unfit
      else
        match sink with
        | .config (.field ..) | .name => do
          typeError node "!!map" sink.typeName
          pure .unfit
        | .config t => do
          structPairs n anchors t entries
          pure .stored
        | .loose => do
          let textKeys := textKeyed anchors entries
          loosePairs n anchors textKeys entries
          pure (.value (.table textKeys))
        | .table textKeys => do
          loosePairs n anchors textKeys entries
          pure (.value (.table textKeys))

/-- Reads the items of a sequence as loose values, leaving out those that do not fit. -/
def decodeItems : Nat → Array Node → List Node → Decode (List Loose)
  | 0, _, _ => pure []
  | _ + 1, _, [] => pure []
  | n + 1, anchors, item :: rest => do
    let r ← decode n anchors .loose item
    let vs ← decodeItems n anchors rest
    match r with
    | .value v => pure (v :: vs)
    | _ => pure vs

/-- Reads a mapping into a section or the whole configuration: its own keys first, each read as
a string, then its merge. The names a merge may no longer set are put aside while the values
are read and grow by each name read here. -/
def structPairs (n : Nat) (anchors : Array Node) (t : Target) (entries : List (Node × Node)) :
    Decode Unit := do
  let saved := (← get).merged
  modify fun st => { st with merged := none }
  let (mergeNode, seen) ← structEach n anchors t entries saved [] none
  modify fun st => { st with merged := seen }
  match mergeNode with
  | some m => merge n anchors (.config t) entries m
  | none => pure ()

/-- The pairs of a mapping read into a target, with the names merged so far, the names set, and
the merge found. A name set twice is noted and read only once. -/
def structEach : Nat → Array Node → Target → List (Node × Node) → Option (List Key) →
    List String → Option Node → Decode (Option Node × Option (List Key))
  | 0, _, _, _, seen, _, m => pure (m, seen)
  | _ + 1, _, _, [], seen, _, m => pure (m, seen)
  | n + 1, anchors, t, (k, v) :: rest, seen, done, m =>
    if isMerge k then structEach n anchors t rest seen done (some v)
    else do
      match ← decode n anchors .name k with
      | .value (.scalar (.text bs)) =>
        let key := Key.text bs
        if (seen.map fun s => s.any key.same).getD false then
          structEach n anchors t rest seen done m
        else
          let seen := seen.map (· ++ [key])
          let name := Utf8.toText bs
          match t.child name with
          | some ct =>
            if done.contains name then do
              note ("line " ++ toString k.line ++ ": field " ++ name ++ " already set in type " ++
                t.typeName)
              structEach n anchors t rest seen done m
            else do
              let _ ← decode n anchors (.config ct) v
              structEach n anchors t rest seen (name :: done) m
          | none => structEach n anchors t rest seen done m
      | _ => structEach n anchors t rest seen done m

/-- Reads a mapping loosely: its own keys first, then its merge. -/
def loosePairs (n : Nat) (anchors : Array Node) (textKeys : Bool)
    (entries : List (Node × Node)) : Decode Unit := do
  let saved := (← get).merged
  modify fun st => { st with merged := none }
  let (mergeNode, seen) ← looseEach n anchors textKeys entries saved none
  modify fun st => { st with merged := seen }
  match mergeNode with
  | some m => merge n anchors (.table textKeys) entries m
  | none => pure ()

/-- The pairs of a mapping read loosely, with the keys merged so far and the merge found. A key
that is a mapping or a sequence is a fault. -/
def looseEach : Nat → Array Node → Bool → List (Node × Node) → Option (List Key) →
    Option Node → Decode (Option Node × Option (List Key))
  | 0, _, _, _, seen, m => pure (m, seen)
  | _ + 1, _, _, [], seen, m => pure (m, seen)
  | n + 1, anchors, textKeys, (k, v) :: rest, seen, m =>
    if isMerge k then looseEach n anchors textKeys rest seen (some v)
    else do
      match ← decode n anchors (if textKeys then .name else .loose) k with
      | .value key =>
        let skip ← match seen with
          | some s => alreadyMerged s key
          | none => pure false
        if skip then looseEach n anchors textKeys rest seen m
        else
          match key with
          | .scalar kk => do
            let _ ← decode n anchors .loose v
            looseEach n anchors textKeys rest (seen.map (· ++ [kk])) m
          | other => fault ("invalid map key: " ++ other.literal)
      | _ => looseEach n anchors textKeys rest seen m

/-- Merges a mapping, an alias of one, or a sequence of them. The first merge of a nesting
gathers the keys of the mapping it belongs to, read loosely, as the names it may not set. -/
def merge (n : Nat) (anchors : Array Node) (sink : Sink) (parent : List (Node × Node))
    (m : Node) : Decode Unit := do
  let fresh := (← get).merged.isNone
  if fresh then
    modify fun st => { st with merged := some [] }
    gatherKeys n anchors parent
  match m with
  | .mapping .. => discard (decode n anchors sink m)
  | .reference _ target _ _ =>
    if anchorsMapping anchors target then discard (decode n anchors sink m) else fault wantMap
  | .sequence items _ _ => mergeEach n anchors sink items
  | _ => fault wantMap
  if fresh then modify fun st => { st with merged := none }

/-- Gathers the keys of a mapping, read loosely, into the names a merge may not set. -/
def gatherKeys : Nat → Array Node → List (Node × Node) → Decode Unit
  | 0, _, _ => pure ()
  | _ + 1, _, [] => pure ()
  | n + 1, anchors, (k, _) :: rest => do
    match ← decode n anchors .loose k with
    | .value (.scalar kk) => modify fun st => { st with merged := st.merged.map (· ++ [kk]) }
    | .value other => crash ("hash of unhashable type " ++ other.typeName)
    | _ => pure ()
    gatherKeys n anchors rest

/-- Merges each mapping of a sequence in turn; an item that is no mapping is a fault. -/
def mergeEach : Nat → Array Node → Sink → List Node → Decode Unit
  | 0, _, _, _ => pure ()
  | _ + 1, _, _, [] => pure ()
  | n + 1, anchors, sink, item :: rest => do
    let fits := match item with
      | .reference _ target _ _ => anchorsMapping anchors target
      | .mapping .. => true
      | _ => false
    if !fits then fault wantMap
    discard (decode n anchors sink item)
    mergeEach n anchors sink rest

end

/-- How deep reading may go, aliases counted. -/
def decodeFuel : Nat := 1000000

/-- Lays a document over a configuration. The document itself counts as the first read. -/
def decodeDocument (doc : Document) (c : Config) : Except LoadError Config :=
  match doc.root with
  | none => .ok c
  | some root =>
    let start : DecodeState := ⟨c, #[], none, [], 0, 1, 0⟩
    match (decode decodeFuel doc.anchors (.config .root) root).run start with
    | .ok (_, st) =>
      if st.errors.isEmpty then .ok st.config
      else .error (.invalid ("yaml: unmarshal errors:\n  " ++ "\n  ".intercalate st.errors.toList))
    | .error e => .error e

/-- Reads a configuration from YAML text over the defaults and checks it. -/
def load (text : String) : Except LoadError Config :=
  match Document.read text with
  | .error e => .error (.invalid ("failed to parse config file: " ++ e.message))
  | .ok doc =>
    match decodeDocument doc defaults with
    | .error (.invalid m) => .error (.invalid ("failed to parse config file: " ++ m))
    | .error (.crash m) => .error (.crash m)
    | .ok c =>
      match c.validate with
      | .error m => .error (.invalid ("invalid configuration: " ++ m))
      | .ok () => .ok c

/-- Reads a configuration from the text of its file; no file at all gives the defaults. -/
def loadSource : Option String → Except LoadError Config
  | none => .ok defaults
  | some text => load text

end Courier.Config
