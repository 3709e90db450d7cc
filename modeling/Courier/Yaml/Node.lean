import Courier.Yaml.Token

/-!
A YAML document as a tree. Every node records its tag in short form and the line it starts on,
counted from one. An alias, a `reference` node, names the anchored node it stands for by its place in the
document's table of anchored nodes, so a node may refer to itself through an alias without the
tree being cyclic. An alias also keeps the place in the text where it is written, which tells
two aliases of one anchor apart.
-/

set_option autoImplicit false

namespace Courier.Yaml

/-- A node of a document. -/
inductive Node where
  | scalar (value : String) (tag : String) (style : ScalarStyle) (line : Nat)
  | sequence (items : List Node) (tag : String) (line : Nat)
  | mapping (entries : List (Node × Node)) (tag : String) (line : Nat)
  | reference (name : String) (target : Nat) (place : Nat) (line : Nat)
deriving Inhabited

namespace Node

/-- The line a node starts on. -/
def line : Node → Nat
  | scalar _ _ _ l => l
  | sequence _ _ l => l
  | mapping _ _ l => l
  | reference _ _ _ l => l

/-- The tag of a node; an alias has none of its own. -/
def tag : Node → String
  | scalar _ t _ _ => t
  | sequence _ t _ => t
  | mapping _ t _ => t
  | reference _ _ _ _ => ""

/-- The text of a node: a scalar's value, an alias's anchor name, nothing for collections. -/
def text : Node → String
  | scalar v _ _ _ => v
  | reference n _ _ _ => n
  | _ => ""

/-- The kind of a node, as a number: scalar, sequence, mapping, alias. -/
def kind : Node → Nat
  | scalar .. => 0
  | sequence .. => 1
  | mapping .. => 2
  | reference .. => 3

/-- Whether two keys are the same: nodes of one kind with one text. -/
def sameKey (a b : Node) : Bool := a.kind = b.kind && a.text = b.text

end Node

/-- A document: its root, if it has content, and its anchored nodes. -/
structure Document where
  root : Option Node
  anchors : Array Node

/-- Why a text could not be read as a document. -/
inductive ReadError where
  | malformed (p : Problem)
  | unknownAnchor (name : String)

/-- The text of a reading error. -/
def ReadError.message : ReadError → String
  | .malformed p => p.message
  | .unknownAnchor n => "yaml: unknown anchor '" ++ n ++ "' referenced"

end Courier.Yaml
