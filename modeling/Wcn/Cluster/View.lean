import Wcn.Cluster.NodeOperators

/-!
# Wcn.Cluster.View

A node's view of the cluster: how it is built from a snapshot of the contract (`tryFromSc`), and
how an event changes it (`applyEvent`).

Keyspaces are modelled without their shards, which are a function of their operators. Times are
Unix timestamps in seconds.
-/

namespace Wcn
namespace Cluster

open Lib
open Contract (Address Bytes)
open Contract.Bitmask (Idx)

variable {S D : Type}

/-! ## Keyspaces -/

def replicationFactor : Nat := 5

inductive ReplicationStrategy where
  | uniformDistribution
deriving DecidableEq

structure Keyspace where
  operators : Finset Idx
  replicationStrategy : ReplicationStrategy
deriving DecidableEq

namespace Keyspace

inductive TryFromSmartContractError where
  | invalidReplicationStrategy (strategy : Nat)
  | tooFewOperators (count : Nat)
  | tooManyOperators (count : Nat)
deriving DecidableEq

def new (operators : Finset Idx) (replicationStrategy : ReplicationStrategy) :
    Except TryFromSmartContractError Keyspace :=
  if operators.card < replicationFactor then
    .error (.tooFewOperators operators.card)
  else if maxOperators < operators.card then
    .error (.tooManyOperators operators.card)
  else
    .ok ⟨operators, replicationStrategy⟩

def tryFrom (keyspace : SmartContract.Keyspace) : Except TryFromSmartContractError Keyspace :=
  if keyspace.replicationStrategy = 0 then
    new keyspace.operators .uniformDistribution
  else
    .error (.invalidReplicationStrategy keyspace.replicationStrategy)

/-- Whether all operators are known. The source reports one that is not, whichever comes first in
its hash set. -/
def validate (keyspace : Keyspace) (nodeOperators : NodeOperators D) : Bool :=
  decide (∀ idx ∈ keyspace.operators, nodeOperators.containsIdx idx)

end Keyspace

/-! ## Migrations -/

namespace Migration

inductive State where
  | started (keyspace : Keyspace) (pullingOperators : Finset Idx)
  | aborted (time : Nat)
  | completed
deriving DecidableEq

inductive TryFromSmartContractError where
  | keyspace (e : Keyspace.TryFromSmartContractError)
  | invalidTimestamp (ts : Nat)
deriving DecidableEq

/-- The last second `OffsetDateTime` can represent. -/
def maxTimestamp : Nat := 253402300799

def parseTimestamp (ts : Nat) : Except TryFromSmartContractError Nat :=
  if ts ≤ maxTimestamp then .ok ts else .error (.invalidTimestamp ts)

end Migration

structure Migration where
  id : Nat
  startedAt : Nat
  state : Migration.State
deriving DecidableEq

namespace Migration

def keyspace (migration : Migration) : Option Keyspace :=
  match migration.state with
  | .started keyspace _ => some keyspace
  | _ => none

def isPulling (migration : Migration) (idx : Idx) : Bool :=
  match migration.state with
  | .started _ pullingOperators => decide (idx ∈ pullingOperators)
  | _ => false

def isInProgress (migration : Migration) : Bool :=
  match migration.state with
  | .started _ _ => true
  | _ => false

def pullingCount (migration : Migration) : Nat :=
  match migration.state with
  | .started _ pullingOperators => pullingOperators.card
  | _ => 0

def completePull (migration : Migration) (idx : Idx) : Migration :=
  match migration.state with
  | .started keyspace pullingOperators =>
    { migration with state := .started keyspace (pullingOperators.erase idx) }
  | _ => migration

def stateFromSc (migration : SmartContract.Migration) (keyspace : SmartContract.Keyspace) :
    Except TryFromSmartContractError State :=
  match migration.abortedAt with
  | some time => (parseTimestamp time).map .aborted
  | none =>
    if migration.pullingOperators = ∅ then
      .ok .completed
    else
      ((Keyspace.tryFrom keyspace).mapError .keyspace).map (.started · migration.pullingOperators)

def tryFromSc (migration : SmartContract.Migration) (keyspace : SmartContract.Keyspace) :
    Except TryFromSmartContractError Migration := do
  let state ← stateFromSc migration keyspace
  let startedAt ← parseTimestamp migration.startedAt
  .ok ⟨migration.id, startedAt, state⟩

end Migration

/-! ## Views -/

structure View (S D : Type) where
  nodeOperators : NodeOperators D
  owner : Address
  settings : S
  keyspace : Keyspace
  keyspaceVersion : Nat
  migration : Migration
  /-- The account that occupies the maintenance slot. -/
  maintenance : Option Address
  clusterVersion : Nat

namespace View

inductive Error where
  | clusterVersionNotMonotonic (current new : Nat)
  | migrationInProgress (id : Nat)
  | maintenanceInProgress (slot : Address)
  | noMigration
  | noMaintenance
  | wrongMigrationId (given current : Nat)
  | sameKeyspace
  | keyspaceUnknownOperator
  | notPulling (idx : Idx)
  | wrongPullingOperatorsCount (expected count : Nat)
  | operatorNotFound (id : Address)
  | operatorAlreadyExists (id : Address)
  | operatorSlotOccupied (idx : Idx)
  | invalidSettings (e : SettingsError)
  | invalidKeyspace (e : Keyspace.TryFromSmartContractError)
  | invalidMigration (e : Migration.TryFromSmartContractError)
  /-- Indexing past the end of the operator slots. -/
  | panic
deriving DecidableEq

inductive TryFromSmartContractError where
  | invalidKeyspaceVersion
  | keyspaceUnknownOperator
  | nodeOperatorsCreation (e : NodeOperators.CreationError)
  | invalidSettings (e : SettingsError)
  | invalidKeyspace (e : Keyspace.TryFromSmartContractError)
  | invalidMigration (e : Migration.TryFromSmartContractError)
deriving DecidableEq

/-- A migration in progress has already raised the version. -/
def primaryKeyspaceVersion (view : SmartContract.ClusterView) : Except TryFromSmartContractError Nat :=
  if view.migration.pullingOperators = ∅ then
    .ok view.keyspaceVersion
  else if view.keyspaceVersion = 0 then
    .error .invalidKeyspaceVersion
  else
    .ok (view.keyspaceVersion - 1)

def tryFromSc (cfg : Config S D) (view : SmartContract.ClusterView) :
    Except TryFromSmartContractError (View S D) := do
  let slots := view.nodeOperators.map (Option.map (NodeOperator.fromSc cfg))
  let nodeOperators ← (NodeOperators.fromSlots slots).mapError .nodeOperatorsCreation
  let settings ← (cfg.settings view.settings).mapError .invalidSettings
  let primaryKeyspaceVersion ← primaryKeyspaceVersion view
  let primaryKeyspace := view.keyspaces (Fin.ofNat 2 primaryKeyspaceVersion)
  let secondaryKeyspace := view.keyspaces (Fin.ofNat 2 (primaryKeyspaceVersion + 1))
  let keyspace ← (Keyspace.tryFrom primaryKeyspace).mapError .invalidKeyspace
  if ¬ keyspace.validate nodeOperators then
    .error .keyspaceUnknownOperator
  else
    let migration ← (Migration.tryFromSc view.migration secondaryKeyspace).mapError .invalidMigration
    if ¬ migration.keyspace.all (·.validate nodeOperators) then
      .error .keyspaceUnknownOperator
    else
      .ok {
        nodeOperators := nodeOperators
        owner := view.owner
        settings := settings
        keyspace := keyspace
        keyspaceVersion := view.keyspaceVersion
        migration := migration
        maintenance := view.maintenance
        clusterVersion := view.clusterVersion }

/-! ## Events -/

def requireNoMigration (view : View S D) : Except Error Unit :=
  if view.migration.isInProgress then .error (.migrationInProgress view.migration.id) else .ok ()

def requireNoMaintenance (view : View S D) : Except Error Unit :=
  match view.maintenance with
  | some slot => .error (.maintenanceInProgress slot)
  | none => .ok ()

def requireMigration (view : View S D) : Except Error Unit :=
  if view.migration.isInProgress then .ok () else .error .noMigration

def requireId (view : View S D) (id : Nat) : Except Error Unit :=
  if id ≠ view.migration.id then .error (.wrongMigrationId id view.migration.id) else .ok ()

def requirePulling (view : View S D) (idx : Idx) : Except Error Unit :=
  if view.migration.isPulling idx then .ok () else .error (.notPulling idx)

def requirePullingCount (view : View S D) (expected : Nat) : Except Error Unit :=
  if view.migration.pullingCount ≠ expected then
    .error (.wrongPullingOperatorsCount expected view.migration.pullingCount)
  else
    .ok ()

def requireIdx (view : View S D) (id : Address) : Except Error Idx :=
  match view.nodeOperators.getIdx id with
  | some idx => .ok idx
  | none => .error (.operatorNotFound id)

/-- The id of `View::migration`, which is none unless a migration is in progress. -/
def ongoingMigrationId (view : View S D) : Option Nat :=
  if view.migration.isInProgress then some view.migration.id else none

def isPulling (view : View S D) (operatorId : Address) : Bool :=
  match view.nodeOperators.getIdx operatorId with
  | some idx => view.migration.isPulling idx
  | none => false

/-- What `Cluster::complete_migration` checks before it calls the contract. -/
def checkCompleteMigration (view : View S D) (signer : Address) (id : Nat) : Except Error Unit := do
  let operatorIdx ← view.requireIdx signer
  view.requireMigration
  view.requireId id
  view.requirePulling operatorIdx

def setSlot (view : View S D) (idx : Idx) (slot : Option (NodeOperator D)) :
    Except Error (View S D) :=
  match view.nodeOperators.set idx slot with
  | some nodeOperators => .ok { view with nodeOperators := nodeOperators }
  | none => .error .panic

def migrationStarted (view : View S D) (migrationId : Nat) (newKeyspace : SmartContract.Keyspace)
    (time : Nat) : Except Error (View S D) := do
  view.requireNoMigration
  view.requireNoMaintenance
  let newKeyspace ← (Keyspace.tryFrom newKeyspace).mapError .invalidKeyspace
  if ¬ newKeyspace.validate view.nodeOperators then
    .error .keyspaceUnknownOperator
  else if view.keyspace = newKeyspace then
    .error .sameKeyspace
  else
    let startedAt ← (Migration.parseTimestamp time).mapError .invalidMigration
    .ok { view with
      migration := ⟨migrationId, startedAt, .started newKeyspace newKeyspace.operators⟩
      keyspaceVersion := view.keyspaceVersion + 1 }

def migrationDataPullCompleted (view : View S D) (migrationId : Nat) (operatorId : Address) :
    Except Error (View S D) := do
  let idx ← view.requireIdx operatorId
  view.requireMigration
  view.requireId migrationId
  view.requirePulling idx
  .ok { view with migration := view.migration.completePull idx }

def migrationCompleted (view : View S D) (migrationId : Nat) (operatorId : Address) :
    Except Error (View S D) := do
  let idx ← view.requireIdx operatorId
  view.requireMigration
  view.requireId migrationId
  view.requirePulling idx
  view.requirePullingCount 1
  match view.migration.keyspace with
  | some keyspace =>
    .ok { view with keyspace := keyspace, migration := { view.migration with state := .completed } }
  | none => .error .panic

def migrationAborted (view : View S D) (migrationId time : Nat) : Except Error (View S D) := do
  view.requireMigration
  view.requireId migrationId
  let time ← (Migration.parseTimestamp time).mapError .invalidMigration
  .ok { view with
    migration := { view.migration with state := .aborted time }
    keyspaceVersion := view.keyspaceVersion - 1 }

def maintenanceStarted (view : View S D) (startedBy : Address) : Except Error (View S D) := do
  view.requireNoMigration
  view.requireNoMaintenance
  .ok { view with maintenance := some startedBy }

def maintenanceFinished (view : View S D) : Except Error (View S D) :=
  match view.maintenance with
  | some _ => .ok { view with maintenance := none }
  | none => .error .noMaintenance

def nodeOperatorAdded (cfg : Config S D) (view : View S D) (idx : Idx)
    (operator : SmartContract.NodeOperator) : Except Error (View S D) :=
  if view.nodeOperators.contains operator.id then
    .error (.operatorAlreadyExists operator.id)
  else if view.nodeOperators.containsIdx idx then
    .error (.operatorSlotOccupied idx)
  else
    view.setSlot idx (some (.fromSc cfg operator))

def nodeOperatorUpdated (cfg : Config S D) (view : View S D) (operator : SmartContract.NodeOperator) :
    Except Error (View S D) := do
  let idx ← view.requireIdx operator.id
  view.setSlot idx (some (.fromSc cfg operator))

def nodeOperatorRemoved (view : View S D) (id : Address) : Except Error (View S D) := do
  let idx ← view.requireIdx id
  view.setSlot idx none

def settingsUpdated (cfg : Config S D) (view : View S D) (settings : SmartContract.Settings) :
    Except Error (View S D) := do
  let settings ← (cfg.settings settings).mapError .invalidSettings
  .ok { view with settings := settings }

/-- The change an event stands for, without its version. -/
def change (cfg : Config S D) (view : View S D) : SmartContract.Event → Except Error (View S D)
  | .migrationStarted migrationId newKeyspace time _ =>
    view.migrationStarted migrationId newKeyspace time
  | .migrationDataPullCompleted migrationId operatorId _ =>
    view.migrationDataPullCompleted migrationId operatorId
  | .migrationCompleted migrationId operatorId _ => view.migrationCompleted migrationId operatorId
  | .migrationAborted migrationId time _ => view.migrationAborted migrationId time
  | .maintenanceStarted startedBy _ => view.maintenanceStarted startedBy
  | .maintenanceFinished _ => view.maintenanceFinished
  | .nodeOperatorAdded idx operator _ => view.nodeOperatorAdded cfg idx operator
  | .nodeOperatorUpdated operator _ => view.nodeOperatorUpdated cfg operator
  | .nodeOperatorRemoved id _ => view.nodeOperatorRemoved id
  | .settingsUpdated settings _ => view.settingsUpdated cfg settings

def applyEvent (cfg : Config S D) (view : View S D) (event : SmartContract.Event) :
    Except Error (View S D) :=
  if event.clusterVersion ≠ view.clusterVersion + 1 then
    .error (.clusterVersionNotMonotonic view.clusterVersion event.clusterVersion)
  else do
    let view ← view.change cfg event
    .ok { view with clusterVersion := event.clusterVersion }

end View

end Cluster
end Wcn
