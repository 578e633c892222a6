import Wcn.Contract.Cluster

/-!
# Wcn.Cluster.SmartContract

What a node reads from the chain: the types of the `smart_contract` module, and the conversions
from the contract's own types.

* `ClusterView.tryFrom` — a node's reading of `getView`. Slots and holders with the zero address
  count as empty, and a migration counts as aborted by its timestamps.
* `Event.tryFrom` — a node's reading of an emitted event, with the timestamp of its block. Events
  about ownership are skipped.
-/

namespace Wcn
namespace Cluster
namespace SmartContract

open Contract (Address Bytes)
open Contract.Bitmask (Idx)

structure NodeOperator where
  id : Address
  data : Bytes
deriving DecidableEq

structure Settings where
  maxNodeOperatorDataBytes : Nat
  extra : Bytes
deriving DecidableEq

structure Keyspace where
  operators : Finset Idx
  replicationStrategy : Nat
deriving DecidableEq

structure Migration where
  id : Nat
  pullingOperators : Finset Idx
  startedAt : Nat
  abortedAt : Option Nat

structure ClusterView where
  nodeOperators : List (Option NodeOperator)
  owner : Address
  settings : Settings
  keyspaces : Fin 2 → Keyspace
  keyspaceVersion : Nat
  migration : Migration
  maintenance : Option Address
  clusterVersion : Nat

inductive Event where
  | migrationStarted (migrationId : Nat) (newKeyspace : Keyspace) (time clusterVersion : Nat)
  | migrationDataPullCompleted (migrationId : Nat) (operatorId : Address) (clusterVersion : Nat)
  | migrationCompleted (migrationId : Nat) (operatorId : Address) (clusterVersion : Nat)
  | migrationAborted (migrationId time clusterVersion : Nat)
  | maintenanceStarted (startedBy : Address) (clusterVersion : Nat)
  | maintenanceFinished (clusterVersion : Nat)
  | nodeOperatorAdded (idx : Idx) (operator : NodeOperator) (clusterVersion : Nat)
  | nodeOperatorUpdated (operator : NodeOperator) (clusterVersion : Nat)
  | nodeOperatorRemoved (id : Address) (clusterVersion : Nat)
  | settingsUpdated (settings : Settings) (clusterVersion : Nat)
deriving DecidableEq

def Event.clusterVersion : Event → Nat
  | .migrationStarted _ _ _ version => version
  | .migrationDataPullCompleted _ _ version => version
  | .migrationCompleted _ _ version => version
  | .migrationAborted _ _ version => version
  | .maintenanceStarted _ version => version
  | .maintenanceFinished version => version
  | .nodeOperatorAdded _ _ version => version
  | .nodeOperatorUpdated _ version => version
  | .nodeOperatorRemoved _ version => version
  | .settingsUpdated _ version => version

def bitmaskToHashset (bitmask : BitVec 256) : Finset Idx := Lib.ones bitmask

def NodeOperator.ofContract (op : Contract.NodeOperator) : NodeOperator := ⟨op.addr, op.data⟩

def Settings.ofContract (settings : Contract.Settings) : Settings :=
  ⟨settings.maxOperatorDataBytes, settings.extra⟩

def Keyspace.ofContract (keyspace : Contract.Keyspace) : Keyspace :=
  ⟨bitmaskToHashset keyspace.operatorBitmask, keyspace.replicationStrategy⟩

def Migration.ofContract (migration : Contract.Migration) : Migration where
  id := migration.id
  pullingOperators := bitmaskToHashset migration.pullingOperatorBitmask
  startedAt := migration.startedAt
  abortedAt :=
    if migration.startedAt ≤ migration.abortedAt ∧ migration.pullingOperatorBitmask = 0 then
      some migration.abortedAt
    else
      none

def ClusterView.tryFrom (view : Contract.ClusterView) : ClusterView where
  nodeOperators := view.operatorSlots.map fun slot =>
    if slot.addr = 0 then none else some (.ofContract slot)
  owner := view.owner
  settings := .ofContract view.settings
  keyspaces := fun i => .ofContract (view.keyspaces i)
  keyspaceVersion := view.keyspaceVersion
  migration := .ofContract view.migration
  maintenance := if view.maintenanceSlot = 0 then none else some view.maintenanceSlot
  clusterVersion := view.version

/-- What a node makes of an event in a block with the given timestamp. -/
def Event.tryFrom (blockTimestamp : Nat) : Contract.Event → Option Event
  | .maintenanceToggled operator active version =>
    if active then
      some (.maintenanceStarted operator version)
    else
      some (.maintenanceFinished version)
  | .migrationAborted id version => some (.migrationAborted id blockTimestamp version)
  | .migrationCompleted id operator version => some (.migrationCompleted id operator version)
  | .migrationDataPullCompleted id operator version =>
    some (.migrationDataPullCompleted id operator version)
  | .migrationStarted id newKeyspace _ version =>
    some (.migrationStarted id (.ofContract newKeyspace) blockTimestamp version)
  | .nodeOperatorAdded operator slot operatorData version =>
    some (.nodeOperatorAdded slot ⟨operator, operatorData⟩ version)
  | .nodeOperatorRemoved operator _ version => some (.nodeOperatorRemoved operator version)
  | .nodeOperatorUpdated operator _ operatorData version =>
    some (.nodeOperatorUpdated ⟨operator, operatorData⟩ version)
  | .settingsUpdated newSettings _ version => some (.settingsUpdated (.ofContract newSettings) version)
  | .ownershipTransferStarted _ _ => none
  | .ownershipTransferred _ _ => none

end SmartContract
end Cluster
end Wcn
