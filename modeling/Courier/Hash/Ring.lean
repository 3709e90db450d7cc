import Courier.Hash.XXH64
/-!
A consistent hash ring. Each node stands on the ring at a fixed number of points, the digests
of its name joined to each point's index; a key belongs to the node at the first point at or
after the key's digest, going round to the first point when it passes the last. A point that
two nodes would share stays with the node that claimed it first.

The ring keeps the positions of its points in a list and their owners in a map, apart. Adding
nodes appends each new position to the list and sorts it once the call is done; removing a node
runs once over the list, dropping each position the node owns and forgetting its owner as it
goes. A lookup finds the first position at or after the key's digest by halving the range.

The digest is a parameter of the ring: `Ring.create` places by xxHash, and nothing else reads it.
-/

set_option autoImplicit false

namespace Courier.Hash

/-- The number of points a node gets when none is asked for. -/
def defaultReplicas : Nat := 64

/-- A ring of nodes. -/
structure Ring where
  /-- The digest that places node points and keys. -/
  digest : String → UInt64
  /-- Points per node. -/
  replicas : Nat
  /-- The positions of the points, ascending between calls. -/
  hashes : List UInt64
  /-- The node that owns each position. -/
  owners : UInt64 → Option String
  /-- The members, in the order they joined. -/
  members : List String

/-- An empty ring placing points by `digest`, with `replicas` points per node; a count below one
means the default. -/
def Ring.empty (digest : String → UInt64) (replicas : Int) : Ring :=
  ⟨digest, if replicas < 1 then defaultReplicas else replicas.toNat, [], fun _ => none, []⟩

/-- An empty ring placing points by their xxHash digest. -/
def Ring.create (replicas : Int) : Ring := Ring.empty xxh64Text replicas

/-- The position of a node's `i`-th point. -/
def pointOf (digest : String → UInt64) (node : String) (i : Nat) : UInt64 :=
  digest (node ++ "#" ++ toString i)

/-- Claims position `h` for `node` unless a point already holds it. A new position goes to the
end of the list, to be sorted in when the call is done. -/
def Ring.claim (r : Ring) (node : String) (h : UInt64) : Ring :=
  match r.owners h with
  | some _ => r
  | none => { r with owners := fun k => if k = h then some node else r.owners k, hashes := r.hashes ++ [h] }

/-- Joins one node, claiming its points in turn; a member already present changes nothing. -/
def Ring.join (r : Ring) (node : String) : Ring :=
  if r.members.contains node then r
  else
    (List.range r.replicas).foldl (fun s i => s.claim node (pointOf r.digest node i))
      { r with members := r.members ++ [node] }

/-- Puts a position into an ascending list, before the first position not below it. -/
def insertAscending (h : UInt64) : List UInt64 → List UInt64
  | [] => [h]
  | k :: ks => if h ≤ k then h :: k :: ks else k :: insertAscending h ks

/-- Sorts positions into ascending order, one insertion at a time. -/
def sortAscending : List UInt64 → List UInt64
  | [] => []
  | h :: hs => insertAscending h (sortAscending hs)

/-- Adds nodes in turn, then sorts the positions. -/
def Ring.add (r : Ring) (nodes : List String) : Ring :=
  let s := nodes.foldl Ring.join r
  { s with hashes := sortAscending s.hashes }

/-- One pass over the positions, in order, that drops each one `node` owns and forgets its owner
as it goes. A position without an owner reads as owned by the empty name. -/
def dropOwned (node : String) :
    List UInt64 → (UInt64 → Option String) → List UInt64 × (UInt64 → Option String)
  | [], owners => ([], owners)
  | h :: hs, owners =>
    if (owners h).getD "" != node then
      let rest := dropOwned node hs owners
      (h :: rest.1, rest.2)
    else dropOwned node hs fun k => if k = h then none else owners k

/-- Takes a node and all its points off the ring. -/
def Ring.remove (r : Ring) (node : String) : Ring :=
  if r.members.contains node then
    let rest := dropOwned node r.hashes r.owners
    { r with hashes := rest.1, owners := rest.2, members := r.members.filter (· != node) }
  else r

/-- The least index below `n` at which `p` holds, for a `p` that stays true once it holds; `n`
when it holds nowhere. Each round halves the range still open. -/
def search (n : Nat) (p : Nat → Bool) : Nat := go 0 n
where
  /-- The search within `[i, j)`. -/
  go (i j : Nat) : Nat :=
    if i < j then
      let m := (i + j) / 2
      if p m then go i m else go (m + 1) j
    else i
  termination_by j - i

/-- The node a key belongs to: the owner of the first position at or after the key's digest, or
of the first position of all; none on an empty ring. -/
def Ring.get (r : Ring) (key : String) : Option String :=
  if r.hashes.isEmpty then none
  else
    let h := r.digest key
    let i := search r.hashes.length fun i => h ≤ r.hashes.getD i 0
    let i := if i = r.hashes.length then 0 else i
    some ((r.owners (r.hashes.getD i 0)).getD "")

/-- The members in ascending order. -/
def Ring.nodes (r : Ring) : List String := r.members.mergeSort (fun a b => compare a b != .gt)

/-- The number of members. -/
def Ring.size (r : Ring) : Nat := r.members.length

end Courier.Hash
