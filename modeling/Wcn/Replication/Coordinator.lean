import Wcn.StorageApi
import Mathlib

/-!
# Wcn.Replication.Coordinator

The replication coordinator, as `crates/replication/src/coordinator` has it. An operation goes to
the replica set of its key and, for a write during a data migration, to a second set; an operator
in both is asked once. Responses are kept in a buffer without repetitions, both sets count them by
their position in it, and the loop stops as soon as every set in use has a quorum.

`collect` is that loop over the responses in the order they arrive. `reconcile` answers reads of
maps that reached no quorum, and `executeCallback` is the whole of it.
-/

namespace Wcn
namespace Replication

open StorageApi

variable {B Op : Type}

/-- Replication factor. -/
def rf : Nat := 5

def majorityQuorumThreshold : Nat := rf / 2 + 1

/-- The operators a key is replicated to. -/
structure ReplicaSet (Op : Type) where
  operators : List Op
  length_operators : operators.length = rf
  nodup : operators.Nodup

/-- One operator's response, from what each of its nodes would answer in turn: transport errors
are retried on the next node. -/
def execute (res : Response B) : List (Response B) → Response B
  | [] => res
  | .error e :: nodes =>
    if e.kind = .transport then execute (.error e) nodes else .error e
  | .ok output :: _ => .ok output

/-! ## Counting responses -/

/-- Puts a response into the first slot that holds it or is free, and says which one it is. There
is no result when every slot holds another response: `panic!("too many responses")`. -/
def receiveResponse [DecidableEq B] :
    List (Option (Response B)) → Response B → Option (List (Option (Response B)) × Nat)
  | [], _ => none
  | none :: buf, response => some (some response :: buf, 0)
  | some resp :: buf, response =>
    if resp = response then
      some (some resp :: buf, 0)
    else
      match receiveResponse buf response with
      | none => none
      | some (buf, idx) => some (some resp :: buf, idx + 1)

structure Quorum (Op : Type) where
  /-- The position of the response a quorum was reached for. -/
  responseIdx : Option Nat
  replicaSet : List Op
  /-- The position of each replica's response. -/
  replicaResponses : List (Option Nat)
  replicasPerResponse : List Nat

namespace Quorum

def new (replicaSet : ReplicaSet Op) : Quorum Op :=
  ⟨none, replicaSet.operators, List.replicate rf none, List.replicate (rf * 2) 0⟩

def responseReceived [DecidableEq Op] (self : Quorum Op) (operator : Op) (responseIdx : Nat) :
    Quorum Op :=
  if operator ∈ self.replicaSet then
    let replicasPerResponse := self.replicasPerResponse.modify responseIdx (· + 1)
    { self with
      replicaResponses :=
        self.replicaResponses.set (self.replicaSet.idxOf operator) (some responseIdx)
      replicasPerResponse
      responseIdx :=
        if majorityQuorumThreshold ≤ replicasPerResponse.getD responseIdx 0 then some responseIdx
        else self.responseIdx }
  else
    self

end Quorum

/-! ## The loop -/

structure Collector (B Op : Type) where
  responses : List (Option (Response B))
  primary : Quorum Op
  secondary : Option (Quorum Op)

namespace Collector

def new (primary : ReplicaSet Op) (secondary : Option (ReplicaSet Op)) : Collector B Op :=
  ⟨List.replicate (rf * 2) none, .new primary, secondary.map .new⟩

/-- What the loop breaks with, if it does. When the two sets reached quorums for different
responses there is no quorum response. -/
def verdict (self : Collector B Op) : Option (Option Nat) :=
  match self.primary.responseIdx, self.secondary with
  | some idx, none => some (some idx)
  | some a, some secondary =>
    match secondary.responseIdx with
    | some b => some (if a = b then some a else none)
    | none => none
  | none, _ => none

theorem verdict_eq_some_some {self : Collector B Op} {i : Nat} :
    self.verdict = some (some i) ↔ self.primary.responseIdx = some i ∧
      ∀ quorum, self.secondary = some quorum → quorum.responseIdx = some i := by
  unfold verdict
  rcases self.primary.responseIdx with _ | a
  · simp
  · rcases self.secondary with _ | quorum
    · simp
    · rcases hb : quorum.responseIdx with _ | b
      · simp [hb]
      · by_cases hab : a = b
        · simp [hb, hab]
        · have hne : a = i → b ≠ i := fun hai hbi => hab (hai.trans hbi.symm)
          simpa [hb, hab] using hne

theorem verdict_eq_some_none {self : Collector B Op} :
    self.verdict = some none ↔ ∃ quorum a b, self.primary.responseIdx = some a ∧
      self.secondary = some quorum ∧ quorum.responseIdx = some b ∧ a ≠ b := by
  unfold verdict
  rcases self.primary.responseIdx with _ | a
  · simp
  · rcases self.secondary with _ | quorum
    · simp
    · rcases hb : quorum.responseIdx with _ | b <;> simp [hb]

variable [DecidableEq B] [DecidableEq Op]

/-- Takes in one response. No result means a panic. -/
def receive (self : Collector B Op) (operator : Op) (response : Response B) :
    Option (Collector B Op) :=
  match receiveResponse self.responses response with
  | none => none
  | some (responses, idx) =>
    some ⟨responses, self.primary.responseReceived operator idx,
      self.secondary.map (·.responseReceived operator idx)⟩

/-- The loop over the arriving responses: the collector and the position it breaks with, and the
responses that arrive later. -/
def collect (self : Collector B Op) :
    List (Op × Response B) →
    Option (Collector B Op × Option Nat × List (Op × Response B))
  | [] => some (self, none, [])
  | (operator, response) :: arrivals =>
    match self.receive operator response with
    | none => none
    | some self =>
      match self.verdict with
      | some idx => some (self, idx, arrivals)
      | none => self.collect arrivals

end Collector

/-! ## Reconciliation -/

/-- The pages among the responses, with the number of replicas that returned them. -/
def mapPages (responses : List (Option (Response B))) (replicasPerResponse : List Nat) :
    List (MapPage B × Nat) :=
  (responses.zip replicasPerResponse).filterMap fun
    | (some (.ok (.mapPage page)), weight) => some (page, weight)
    | _ => none

/-- `*counters.entry(entry).or_insert(0) += weight`, the map listed in the order of insertion. -/
def addWeight [DecidableEq B] (entry : MapEntry B) (weight : Nat) :
    List (MapEntry B × Nat) → List (MapEntry B × Nat)
  | [] => [(entry, weight)]
  | (e, count) :: counters =>
    if e = entry then (e, count + weight) :: counters
    else (e, count) :: addWeight entry weight counters

/-- The entries of the pages, each counted with the weights of its pages. -/
def countEntries [DecidableEq B] (pages : List (MapPage B × Nat)) : List (MapEntry B × Nat) :=
  pages.foldl (fun counters page =>
    page.1.entries.foldl (fun counters entry => addWeight entry page.2 counters) counters) []

/-- `intoIter` is the order in which the hash map of counters is iterated. -/
def reconcileMapPage [LinearOrder B]
    (intoIter : List (MapEntry B × Nat) → List (MapEntry B × Nat))
    (responses : List (Option (Response B))) (replicasPerResponse : List Nat) :
    Option (MapPage B) :=
  let pages := mapPages responses replicasPerResponse
  if (pages.map (·.2)).sum < majorityQuorumThreshold then
    none
  else
    let entries := ((intoIter (countEntries pages)).filter (majorityQuorumThreshold ≤ ·.2)).map (·.1)
    some {
      entries := entries.insertionSort fun a b => a.field ≤ b.field
      hasNext :=
        majorityQuorumThreshold ≤ (pages.map fun page => if page.1.hasNext then page.2 else 0).sum }

def mapCardinalities (responses : List (Option (Response B))) (replicasPerResponse : List Nat) :
    List (Nat × Nat) :=
  (responses.zip replicasPerResponse).filterMap fun
    | (some (.ok (.cardinality card)), weight) => some (card, weight)
    | _ => none

/-- The cardinality at which the accumulated weight reaches a majority. -/
def weighCardinalities (totalWeight : Nat) : List (Nat × Nat) → Option Nat
  | [] => none
  | (card, weight) :: cards =>
    if majorityQuorumThreshold ≤ totalWeight + weight then some card
    else weighCardinalities (totalWeight + weight) cards

def reconcileMapCardinality (responses : List (Option (Response B)))
    (replicasPerResponse : List Nat) : Option Nat :=
  weighCardinalities 0 ((mapCardinalities responses replicasPerResponse).insertionSort
    fun a b => a.1 < b.1 ∨ (a.1 = b.1 ∧ a.2 ≤ b.2))

def reconcile [LinearOrder B]
    (intoIter : List (MapEntry B × Nat) → List (MapEntry B × Nat)) (operation : Operation B)
    (responses : List (Option (Response B))) (replicasPerResponse : List Nat) :
    Option (Output B) :=
  match operation with
  | .hscan _ _ => (reconcileMapPage intoIter responses replicasPerResponse).map .mapPage
  | .hcard => (reconcileMapCardinality responses replicasPerResponse).map .cardinality
  | _ => none

/-! ## An operation from request to reply -/

/-- The secondary set is used for writes only. -/
def secondaryInUse (operation : Operation B) (secondary : Option (ReplicaSet Op)) :
    Option (ReplicaSet Op) :=
  if operation.isWrite then secondary else none

/-- The operators an operation is sent to: an operator in both sets is asked once. -/
def requests [DecidableEq Op] (operation : Operation B) (primary : ReplicaSet Op)
    (secondary : Option (ReplicaSet Op)) : List Op :=
  primary.operators ++
    match secondaryInUse operation secondary with
    | none => []
    | some secondary => secondary.operators.filter (· ∉ primary.operators)

/-- The reply to the client, once the loop broke with `quorumResponseIdx`. -/
def reply [LinearOrder B] (intoIter : List (MapEntry B × Nat) → List (MapEntry B × Nat))
    (operation : Operation B) (collector : Collector B Op) (quorumResponseIdx : Option Nat) :
    Response B :=
  let quorumResponse :=
    match quorumResponseIdx with
    | some idx => collector.responses.getD idx none
    | none =>
      if operation.isWrite then
        none
      else
        (reconcile intoIter operation (collector.responses.take rf)
          (collector.primary.replicasPerResponse.take rf)).map .ok
  quorumResponse.getD (.error .internal)

/-- `execute_callback` up to the reply: the responses of the operators arrive in the given order.
No result means a panic. -/
def executeCallback [LinearOrder B] [DecidableEq Op]
    (intoIter : List (MapEntry B × Nat) → List (MapEntry B × Nat)) (isAuthorized : Bool)
    (operation : Operation B) (primary : ReplicaSet Op) (secondary : Option (ReplicaSet Op))
    (arrivals : List (Op × Response B)) : Option (Response B) :=
  if isAuthorized then
    match (Collector.new primary (secondaryInUse operation secondary)).collect arrivals with
    | none => none
    | some (collector, idx, _) => some (reply intoIter operation collector idx)
  else
    some (.error .unauthorized)

end Replication
end Wcn
