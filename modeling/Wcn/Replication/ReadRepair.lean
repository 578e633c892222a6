import Wcn.Replication.Coordinator

/-!
# Wcn.Replication.ReadRepair

Read repair, as `crates/replication/src/coordinator/read_repair.rs` has it: after a read that
reached a quorum, replicas that returned something else are written the record the quorum
returned. Responses that arrive after the reply can still add targets.
-/

namespace Wcn
namespace Replication

open StorageApi

variable {B Op : Type}

def maxTargets : Nat := rf - majorityQuorumThreshold

def isRepairable : Operation B → Bool
  | .get | .hget _ => true
  | _ => false

/-- The operation that repairs a replica, given the output of the quorum. -/
def repairOperation : Operation B → Output B → Option (Operation B)
  | .get, .record (some record) => some (.set record)
  | .hget field, .record (some record) => some (.hset ⟨field, record⟩)
  | _, _ => none

structure ReadRepair (B Op : Type) where
  output : Output B
  /-- At most `maxTargets` replicas. -/
  targets : List Op

namespace ReadRepair

def new (operation : Operation B) (collector : Collector B Op) : Option (ReadRepair B Op) :=
  if isRepairable operation then
    match collector.primary.responseIdx with
    | none => none
    | some quorumResponseIdx =>
      match collector.responses.getD quorumResponseIdx none with
      | some (.ok output) =>
        let targets :=
          (collector.primary.replicaSet.zip collector.primary.replicaResponses).filterMap fun
            | (operator, some responseIdx) =>
              if responseIdx = quorumResponseIdx then
                none
              else
                match collector.responses.getD responseIdx none with
                | some (.ok _) => some operator
                | _ => none
            | (_, none) => none
        some ⟨output, targets.take maxTargets⟩
      | _ => none
  else
    none

/-- A response that arrives after the reply. -/
def checkResponse [DecidableEq B] (self : ReadRepair B Op) (operator : Op) :
    Response B → ReadRepair B Op
  | .ok output =>
    if output = self.output then self
    else if self.targets.length < maxTargets then
      { self with targets := self.targets ++ [operator] }
    else self
  | .error _ => self

end ReadRepair

section Complete

variable [DecidableEq B] [DecidableEq Op]

/-- Read repair once every response of an operation has arrived. -/
def completeRepair (operation : Operation B) (rs : ReplicaSet Op) (arrivals : List (Op × Response B)) :
    Option (ReadRepair B Op) :=
  match (Collector.new rs none).collect arrivals with
  | none => none
  | some (collector, _, late) =>
    (ReadRepair.new operation collector).map fun repair =>
      late.foldl (fun repair arrival => repair.checkResponse arrival.1 arrival.2) repair

/-- `ReadRepair::run`: the writes that are sent out then. -/
def repairs (operation : Operation B) (rs : ReplicaSet Op) (arrivals : List (Op × Response B)) :
    List (Op × Operation B) :=
  match completeRepair operation rs arrivals with
  | none => []
  | some repair =>
    match repairOperation operation repair.output with
    | none => []
    | some write => repair.targets.map (·, write)

end Complete

end Replication
end Wcn
