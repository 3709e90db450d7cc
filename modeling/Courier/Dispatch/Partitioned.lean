import Courier.Dispatch.Control
import Courier.Hash.Ring
/-!
A partitioned queue: a fixed number of serial queues and a hash ring over their names, so that
every key goes to one partition and work for one key runs in order.
-/

set_option autoImplicit false

namespace Courier.Dispatch

open Courier.Hash

/-- A partitioned queue: its label, the ring over partition names, and the partitions' serial
queues in order. -/
structure Partitioned where
  label : String
  ring : Ring
  parts : List (String × Nat)

namespace Engine

/-- Makes `n` partitions named after the label and numbered from zero. -/
def createPartitioned (e : Engine) (label : String) (n : Int) (options : QueueOptions) :
    Except Fault Partitioned × Engine :=
  if n < 1 then (.error (.partitionCount n), e)
  else
    let label := if label.isEmpty then e.freshLabel "partitioned" else label
    let (pq, e) := (List.range n.toNat).foldl (fun (acc : Partitioned × Engine) i =>
      let name := label ++ "-" ++ toString i
      let (id, e) := acc.2.createSerial name .normal options
      ({ acc.1 with ring := acc.1.ring.add [name], parts := acc.1.parts ++ [(name, id)] }, e))
      (⟨label, Ring.create defaultReplicas, []⟩, e)
    (.ok pq, e)

end Engine

/-- The index of the partition a key goes to. -/
def Partitioned.indexOf (pq : Partitioned) (key : String) : Option Nat :=
  (pq.ring.get key).bind fun name => pq.parts.findIdx? (·.1 == name)

/-- The serial queue a key goes to. -/
def Partitioned.partition (pq : Partitioned) (key : String) : Option Nat :=
  (pq.indexOf key).bind fun i => (pq.parts[i]?).map Prod.snd

end Courier.Dispatch
