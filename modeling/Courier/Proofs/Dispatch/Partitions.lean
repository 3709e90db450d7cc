import Courier.Proofs.Dispatch.Counts
import Courier.Proofs.Hash.Calls

/-!
# Partitioned queues keep each key's order

A partitioned queue with `n` partitions is `n` serial queues, made one after the other and named
after the queue's label and their index, and a hash ring over their names. A key goes to the
partition whose name owns the key on the ring. The names are distinct, the ring has them all as
members and has points as soon as one name is on it, so every key goes to one of the partitions,
and always the same one: the queue is never changed after it is made. What a key's tasks then
get is what every serial queue gives its items: they start in the order they joined, and no two
drains of the queue are ever outstanding.

- `Engine.partitionStep`, `Engine.createPartitioned_eq`: making a partitioned queue, one
  partition at a time;
- `Engine.createPartitioned_of_pos`: the queue made, and the serial queues added;
- `Partitioned.partition_made`: every key goes to one of the partitions;
- `Engine.Reachable.stretch`: along every stretch of calls, serial queues keep their items in
  order;
- `createPartitioned_keeps_key_order`: the whole statement.
-/

set_option autoImplicit false

namespace Courier.Dispatch

open Courier.Hash

namespace Engine

/-! ## Making the partitions -/

/-- The name of partition `i`. -/
def partName (label : String) (i : Nat) : String := label ++ "-" ++ toString i

/-- The label a partitioned queue takes: the one given, or a fresh one. -/
def partitionedLabel (e : Engine) (label : String) : String :=
  if label.isEmpty then e.freshLabel "partitioned" else label

/-- One partition made: a serial queue named after the label and the index, and its name put on
the ring. -/
def partitionStep (label : String) (options : QueueOptions) (acc : Partitioned × Engine) (i : Nat) :
    Partitioned × Engine :=
  let name := partName label i
  let (id, e) := acc.2.createSerial name .normal options
  ({ acc.1 with ring := acc.1.ring.add [name], parts := acc.1.parts ++ [(name, id)] }, e)

theorem createPartitioned_eq (e : Engine) (label : String) (n : Int) (options : QueueOptions) :
    e.createPartitioned label n options =
      if n < 1 then (.error (.partitionCount n), e)
      else
        let r := (List.range n.toNat).foldl (partitionStep (e.partitionedLabel label) options)
          (⟨e.partitionedLabel label, Ring.create defaultReplicas, []⟩, e)
        (.ok r.1, r.2) := rfl

/-- Distinct indices name distinct partitions. -/
theorem partName_injective {label : String} {i j : Nat} (h : partName label i = partName label j) :
    i = j := by
  have h' := congrArg String.toList h
  simp only [partName, String.toList_append, List.append_cancel_left_eq] at h'
  -- the decimal digits of an index read back as the index
  have h'' := congrArg (fun cs => Nat.ofDigitChars 10 cs 0) h'
  simpa [Nat.toString_eq_ofList_toDigits, Nat.ofDigitChars_ten_toDigits] using h''

theorem nodup_partNames (label : String) (k : Nat) : ((List.range k).map (partName label)).Nodup :=
  List.nodup_range.map fun _ _ => partName_injective

theorem createSerial_partName (e : Engine) (label : String) (i : Nat) (options : QueueOptions) :
    let s := Serial.create (partName label i) .normal (.global .normal) options none
    e.createSerial (partName label i) .normal options = (e.serials.size, { e with serials := e.serials.push s }) := by
  simp [createSerial, partName]

/-- Making `k` partitions one after the other: their names join the ring in order, and each is a
new serial queue, numbered after those the engine had. -/
theorem foldl_partitionStep (label : String) (options : QueueOptions) (pq : Partitioned) (e : Engine) :
    ∀ k : Nat, (List.range k).foldl (partitionStep label options) (pq, e) =
      let parts := (List.range k).map fun i => (partName label i, e.serials.size + i)
      let news := (List.range k).map fun i => Serial.create (partName label i) .normal (.global .normal) options none
      let ring := ((List.range k).map (partName label)).foldl (fun r n => r.add [n]) pq.ring
      ({ pq with ring := ring, parts := pq.parts ++ parts }, { e with serials := e.serials ++ news.toArray })
  | 0 => by simp
  | k + 1 => by
    rw [List.range_succ, List.foldl_append, foldl_partitionStep label options pq e k]
    simp only [List.foldl_cons, List.foldl_nil, partitionStep, createSerial_partName]
    simp [List.foldl_append]

end Engine

/-- The partitioned queue made with `k` partitions named after `label`, on the serial queues
numbered from `base`. -/
def Partitioned.made (label : String) (base k : Nat) : Partitioned :=
  ⟨label, (Ring.create defaultReplicas).add ((List.range k).map (Engine.partName label)),
    (List.range k).map fun i => (Engine.partName label i, base + i)⟩

namespace Engine

/-- With at least one partition, the queue is made and the engine gains its serial queues. -/
theorem createPartitioned_of_pos (e : Engine) (label : String) {n : Int} (options : QueueOptions)
    (hn : 1 ≤ n) :
    let L := e.partitionedLabel label
    let news := (List.range n.toNat).map fun i => Serial.create (partName L i) .normal (.global .normal) options none
    e.createPartitioned label n options =
      (.ok (Partitioned.made L e.serials.size n.toNat), { e with serials := e.serials ++ news.toArray }) := by
  rw [createPartitioned_eq, if_neg (Int.not_lt.mpr hn)]
  simp only [foldl_partitionStep]
  -- one name at a time onto the empty ring is all the names in one call
  rw [Ring.foldl_add_singleton List.Pairwise.nil]
  rfl

end Engine

/-! ## Where a key goes -/

namespace Partitioned

theorem indexOf_eq {pq : Partitioned} {key name : String} (hget : pq.ring.get key = some name) :
    pq.indexOf key = pq.parts.findIdx? (·.1 == name) := by
  simp [indexOf, hget]

theorem findIdx?_partName (label : String) (base : Nat) {k j : Nat} (hj : j < k) :
    ((List.range k).map fun i => (Engine.partName label i, base + i)).findIdx?
      (·.1 == Engine.partName label j) = some j := by
  rw [List.findIdx?_eq_some_iff_getElem]
  refine ⟨by simpa using hj, by simp, fun i hij => ?_⟩
  simp only [List.getElem_map, List.getElem_range, beq_iff_eq]
  exact fun h => Nat.ne_of_lt hij (Engine.partName_injective h)

/-- The ring of a partitioned queue: well formed, with positions, and with the partitions' names
as its members. -/
theorem ring_made (label : String) (base : Nat) {k : Nat} (hk : 0 < k) :
    (made label base k).ring.WellFormed ∧ (made label base k).ring.hashes ≠ [] ∧
      (made label base k).ring.members = (List.range k).map (Engine.partName label) := by
  have hc : (Ring.create defaultReplicas).replicas = 64 ∧ (Ring.create defaultReplicas).members = [] := by
    simp [Ring.create, Ring.empty, defaultReplicas]
  have hwf : (Ring.create defaultReplicas).WellFormed := Ring.WellFormed.empty _ _
  refine ⟨hwf.add _, ?_, ?_⟩
  · -- the first name finds the ring empty and places its points
    obtain ⟨k', rfl⟩ := Nat.exists_eq_add_of_lt hk
    show ((Ring.create defaultReplicas).add ((List.range (0 + k' + 1)).map (Engine.partName label))).hashes ≠ []
    rw [Nat.zero_add, List.range_succ_eq_map, List.map_cons]
    exact hwf.hashes_add_ne_nil (by omega) (by simp [hc.2]) _
  · show ((Ring.create defaultReplicas).add _).members = _
    rw [Ring.members_add _ (Engine.nodup_partNames label k) (by simp [hc.2]), hc.2, List.nil_append]

/-- Every key goes to one of the partitions: the one whose name owns the key on the ring. -/
theorem partition_made (label : String) (base : Nat) {k : Nat} (hk : 0 < k) (key : String) :
    ∃ i < k, (made label base k).indexOf key = some i ∧ (made label base k).partition key = some (base + i) := by
  obtain ⟨hwf, hpoints, hmem⟩ := ring_made label base hk
  obtain ⟨name, hget, hname⟩ := hwf.get_mem hpoints key
  rw [hmem, List.mem_map] at hname
  obtain ⟨j, hj, rfl⟩ := hname
  have hj' : j < k := List.mem_range.mp hj
  have hidx : (made label base k).indexOf key = some j := by
    rw [indexOf_eq hget]
    exact findIdx?_partName label base hj'
  refine ⟨j, hj', hidx, ?_⟩
  rw [partition, hidx]
  simp [made, hj']

end Partitioned

/-! ## Runs -/

namespace Engine

/-- A queue the engine lacks holds nothing. -/
theorem waiting_of_size_le {e : Engine} {q : Nat} (hq : e.serials.size ≤ q) : e.waiting q = [] := by
  simp [waiting, Array.getElem?_eq_none hq]

/-- A settled engine has at most one drain of each serial queue outstanding. -/
theorem Settled.drainCount_le_one {W : List Nat} {e : Engine} (h : e.Settled W) (q : Nat) :
    drainCount e.queued q ≤ 1 := by
  cases hs : e.serials[q]? with
  | none =>
    have hd := h.absent q hs
    simp only [outstanding, Running.ids, List.map_nil, List.count_nil, drainCount_nil,
      Nat.add_zero] at hd
    omega
  | some s =>
    have hd := h.drains q s hs
    simp only [outstanding, Running.ids, List.map_nil, List.count_nil, drainCount_nil,
      Nat.add_zero] at hd
    rw [hd]
    unfold Serial.pending
    split <;> omega

/-- Along every stretch of calls from a reachable engine, every serial queue starts the items
that waited in it and then joined it, in order, and the engine stays reachable. -/
theorem Reachable.stretch {e : Engine} (hr : e.Reachable) {y : Engine × List Event}
    (hs : Relation.ReflTransGen Moves (e, []) y) : Conserves e y ∧ y.1.Reachable := by
  induction hs with
  | refl => exact ⟨fun q => by simp, hr⟩
  | tail _ hm ih =>
    obtain ⟨E', c, hE⟩ := hm
    obtain ⟨hc, hr'⟩ := ih
    refine ⟨?_, .call hr' c.call⟩
    have h := hc.append c.conserves
    rwa [← hE] at h

end Engine

/-- Keyed work keeps its order. Making a partitioned queue with fewer than one partition fails
and changes nothing. With `n ≥ 1` partitions it makes `n` fresh serial queues, numbered after the
engine's, with distinct names; every key goes to one of them, always the same. So along every
stretch of calls after it, whatever the calls, each key's queue starts the items that joined it
in the order they joined, and never has two drains outstanding. -/
theorem createPartitioned_keeps_key_order (e : Engine) (label : String) (n : Int)
    (options : QueueOptions) :
    (n < 1 → e.createPartitioned label n options = (.error (.partitionCount n), e)) ∧
    (1 ≤ n → ∃ pq, (e.createPartitioned label n options).1 = .ok pq ∧
      pq.parts.map Prod.snd = List.range' e.serials.size n.toNat ∧ (pq.parts.map Prod.fst).Nodup ∧
      (∀ key, ∃ i < n.toNat, pq.indexOf key = some i ∧ pq.partition key = some (e.serials.size + i)) ∧
      (e.Reachable → ∀ {e' : Engine} {E : List Event},
        Relation.ReflTransGen Engine.Moves ((e.createPartitioned label n options).2, []) (e', E) →
        ∀ key q, pq.partition key = some q →
          startedOn q E ++ e'.waiting q = enqueuedOn q E ∧ drainCount e'.queued q ≤ 1)) := by
  refine ⟨fun hn => by simp [Engine.createPartitioned, hn], fun hn => ?_⟩
  have hk : 0 < n.toNat := by omega
  have hcreate := Engine.createPartitioned_of_pos e label options hn
  refine ⟨Partitioned.made (e.partitionedLabel label) e.serials.size n.toNat, by rw [hcreate], ?_, ?_,
    fun key => Partitioned.partition_made _ _ hk key, ?_⟩
  · simp [Partitioned.made, List.map_map, Function.comp_def, List.range'_eq_map_range]
  · simpa [Partitioned.made, List.map_map, Function.comp_def] using
      Engine.nodup_partNames (e.partitionedLabel label) n.toNat
  · intro hr e' E hs key q hq
    obtain ⟨hc, hr'⟩ := (Engine.Reachable.call hr (.createPartitioned e label n options)).stretch hs
    -- the key's queue is one of the new ones, and held nothing when it was made
    obtain ⟨i, -, -, hi⟩ := Partitioned.partition_made (e.partitionedLabel label) e.serials.size hk key
    obtain rfl : e.serials.size + i = q := Option.some.inj (hi.symm.trans hq)
    have hfresh : (e.createPartitioned label n options).2.waiting (e.serials.size + i) = [] := by
      rw [Engine.waiting_createPartitioned, Engine.waiting_of_size_le (Nat.le_add_right _ _)]
    obtain ⟨W, hl⟩ := hr'.settled
    refine ⟨?_, hl.drainCount_le_one _⟩
    simpa [hfresh] using (hc (e.serials.size + i)).symm

/-- Two partitions made on a new engine: the count is accepted, and each key's queue keeps its
order from the start. -/
theorem two_partitions_keep_key_order :
    match Engine.create ⟨"", 1, 0, 0⟩ 1 Balancer.inert none "t" 0 with
    | .ok e => (1 : Int) ≤ 2 ∧ ∃ pq, (e.createPartitioned "p" 2 {}).1 = .ok pq ∧
        ∀ key q, pq.partition key = some q →
          startedOn q [] ++ (e.createPartitioned "p" 2 {}).2.waiting q = enqueuedOn q [] ∧
            drainCount (e.createPartitioned "p" 2 {}).2.queued q ≤ 1
    | .error _ => False := by
  refine ⟨by decide, ?_⟩
  obtain ⟨pq, hpq, -, -, -, hrun⟩ :=
    (createPartitioned_keeps_key_order _ "p" 2 {}).2 (by decide)
  exact ⟨pq, hpq, hrun (.create ⟨"", 1, 0, 0⟩ 1 Balancer.inert none "t" 0 rfl) .refl⟩

end Courier.Dispatch
