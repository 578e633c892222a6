import Wcn.Contract.Bitmask

/-!
# Wcn.Contract.Cluster

The on-chain `Cluster` contract: its storage, `initialize`, every function that changes the state,
and `getView`.

* A function takes the message (`Msg`) and the state, and reverts or returns the new state with
  the event it emitted.
* Counters are natural numbers; Solidity reverts where one would leave its type (`increment`).
* Ownership is that of `Ownable2StepUpgradeable`.
-/

namespace Wcn
namespace Contract

open Bitmask

abbrev Address := BitVec 160
abbrev Bytes := List UInt8

structure Settings where
  maxOperatorDataBytes : Nat
  minOperators : Nat
  extra : Bytes
deriving DecidableEq, Inhabited

structure NodeOperator where
  addr : Address := 0
  data : Bytes := []
deriving DecidableEq, Inhabited

@[ext]
structure Keyspace where
  operatorBitmask : BitVec 256 := 0
  replicationStrategy : Nat := 0
deriving DecidableEq, Inhabited

structure Migration where
  id : Nat := 0
  startedAt : Nat := 0
  abortedAt : Nat := 0
  pullingOperatorBitmask : BitVec 256 := 0
deriving DecidableEq, Inhabited

structure ClusterView where
  owner : Address
  settings : Settings
  version : Nat
  keyspaceVersion : Nat
  operatorSlots : List NodeOperator
  keyspaces : Fin 2 → Keyspace
  migration : Migration
  maintenanceSlot : Address

inductive Revert where
  | unauthorized
  | migrationInProgress
  | noMigrationInProgress
  | invalidOperator
  | operatorNotFound
  | operatorNotPulling
  | callerNotOperator
  | operatorExists
  | operatorInKeyspace
  | sameKeyspace
  | wrongMigrationId
  | invalidOperatorData
  | tooManyOperators
  | insufficientOperators
  | maintenanceInProgress
  /-- Of `OwnableUpgradeable`. -/
  | ownableUnauthorizedAccount (account : Address)
  /-- Arithmetic overflow or underflow. -/
  | panic
deriving DecidableEq

inductive Event where
  | migrationStarted (id : Nat) (newKeyspace : Keyspace) (keyspaceVersion version : Nat)
  | migrationDataPullCompleted (id : Nat) (operator : Address) (version : Nat)
  | migrationCompleted (id : Nat) (operator : Address) (version : Nat)
  | migrationAborted (id version : Nat)
  | nodeOperatorAdded (operator : Address) (slot : Idx) (operatorData : Bytes) (version : Nat)
  | nodeOperatorUpdated (operator : Address) (slot : Idx) (operatorData : Bytes) (version : Nat)
  | nodeOperatorRemoved (operator : Address) (slot : Idx) (version : Nat)
  | maintenanceToggled (operator : Address) (active : Bool) (version : Nat)
  | settingsUpdated (newSettings : Settings) (updatedBy : Address) (version : Nat)
  /-- Of `Ownable2StepUpgradeable`. -/
  | ownershipTransferStarted (previousOwner newOwner : Address)
  | ownershipTransferred (previousOwner newOwner : Address)
deriving DecidableEq

/-- There are two keyspaces. -/
instance neZero_keyspaces : NeZero 2 := ⟨by decide⟩

structure State where
  owner : Address := 0
  pendingOwner : Address := 0
  settings : Settings := default
  version : Nat := 0
  operatorSlots : Idx → NodeOperator := fun _ => {}
  operatorSlotIndexes : Address → Idx := fun _ => 0
  operatorBitmask : BitVec 256 := 0
  keyspaces : Fin 2 → Keyspace := fun _ => {}
  keyspaceVersion : Nat := 0
  migration : Migration := {}
  maintenanceSlot : Address := 0

/-- What a function reads of its message and block. Block timestamps fit into `uint64`. -/
structure Msg where
  sender : Address
  timestamp : Nat
  timestamp_lt : timestamp < 2 ^ 64

/-- The message of a transaction. No account has the zero address. -/
structure Env extends Msg where
  sender_ne_zero : sender ≠ 0

instance : CoeOut Env Msg := ⟨Env.toMsg⟩

abbrev Result := Except Revert (State × Event)

def increment (width n : Nat) : Except Revert Nat :=
  if n + 1 < 2 ^ width then .ok (n + 1) else .error .panic

namespace State

/-- `emit` of an event with `++version`. -/
def emitNext (s : State) (event : Nat → Event) : Result := do
  let version ← increment 128 s.version
  .ok ({ s with version := version }, event version)

def keyspaceIdx (s : State) : Fin 2 := Fin.ofNat 2 s.keyspaceVersion

def validateOperatorData (s : State) (data : Bytes) : Except Revert Unit :=
  if data.length = 0 ∨ s.settings.maxOperatorDataBytes < data.length then
    .error .invalidOperatorData
  else
    .ok ()

def isSlotInKeyspace (s : State) (slot : Idx) (keyspaceIndex : Fin 2) : Bool :=
  isSet (s.keyspaces keyspaceIndex).operatorBitmask slot

def setOperator (s : State) (slotIdx : Idx) (operator : NodeOperator) : State :=
  { s with
    operatorSlots := Function.update s.operatorSlots slotIdx operator
    operatorSlotIndexes := Function.update s.operatorSlotIndexes operator.addr slotIdx
    operatorBitmask := set s.operatorBitmask slotIdx }

end State

open State

/-- The loop of `initialize`, from index `i` on. -/
def initializeOperators (i : Nat) (s : State) : List NodeOperator → Except Revert State
  | [] => .ok s
  | op :: operators => do
    s.validateOperatorData op.data
    let slotIdx := Fin.ofNat 256 i
    if isSet s.operatorBitmask slotIdx then
      .error .operatorExists
    else
      initializeOperators (i + 1) (s.setOperator slotIdx op) operators

/-- `initialize`, on the storage of a fresh proxy. Nobody reads its `ClusterInitialized` event. -/
def initializeCluster (env : Env) (initialSettings : Settings) (initialOperators : List NodeOperator) :
    Except Revert State :=
  if 256 < initialOperators.length then
    .error .tooManyOperators
  else if initialOperators.length < initialSettings.minOperators then
    .error .insufficientOperators
  else do
    let s ← initializeOperators 0 { owner := env.sender, settings := initialSettings } initialOperators
    let keyspace := { s.keyspaces 0 with operatorBitmask := fill initialOperators.length }
    .ok { s with keyspaces := Function.update s.keyspaces 0 keyspace, version := s.version + 1 }

/-! ## Migration functions -/

def startMigration (env : Msg) (newKeyspace : Keyspace) (s : State) : Result :=
  if env.sender ≠ s.owner then
    .error (.ownableUnauthorizedAccount env.sender)
  else if s.maintenanceSlot ≠ 0 then
    .error .maintenanceInProgress
  else if s.migration.pullingOperatorBitmask ≠ 0 then
    .error .migrationInProgress
  else if countSet newKeyspace.operatorBitmask < s.settings.minOperators then
    .error .insufficientOperators
  else if ¬ isSubsetOf newKeyspace.operatorBitmask s.operatorBitmask then
    .error .operatorNotFound
  else if s.keyspaces s.keyspaceIdx = newKeyspace then
    .error .sameKeyspace
  else do
    let id ← increment 64 s.migration.id
    let keyspaceVersion ← increment 64 s.keyspaceVersion
    let s := { s with
      migration := { s.migration with
        id := id
        startedAt := env.timestamp
        pullingOperatorBitmask := newKeyspace.operatorBitmask }
      keyspaceVersion := keyspaceVersion
      keyspaces := Function.update s.keyspaces (Fin.ofNat 2 keyspaceVersion) newKeyspace }
    s.emitNext (.migrationStarted id newKeyspace keyspaceVersion)

def completeMigration (env : Msg) (id : Nat) (s : State) : Result :=
  let slotIdx := s.operatorSlotIndexes env.sender
  let pulling := unset s.migration.pullingOperatorBitmask slotIdx
  if s.migration.pullingOperatorBitmask = 0 then
    .error .noMigrationInProgress
  else if id ≠ s.migration.id then
    .error .wrongMigrationId
  else if (s.operatorSlots slotIdx).addr ≠ env.sender then
    .error .callerNotOperator
  else if isUnset s.migration.pullingOperatorBitmask slotIdx then
    .error .operatorNotPulling
  else
    let s := { s with migration := { s.migration with pullingOperatorBitmask := pulling } }
    if pulling = 0 then
      s.emitNext (.migrationCompleted id env.sender)
    else
      s.emitNext (.migrationDataPullCompleted id env.sender)

def abortMigration (env : Msg) (id : Nat) (s : State) : Result :=
  if env.sender ≠ s.owner then
    .error (.ownableUnauthorizedAccount env.sender)
  else if s.migration.pullingOperatorBitmask = 0 then
    .error .noMigrationInProgress
  else if id ≠ s.migration.id then
    .error .wrongMigrationId
  else if s.keyspaceVersion = 0 then
    .error .panic
  else
    let s := { s with
      migration := { s.migration with abortedAt := env.timestamp, pullingOperatorBitmask := 0 }
      keyspaceVersion := s.keyspaceVersion - 1 }
    s.emitNext (.migrationAborted id)

/-! ## Operator management -/

def addNodeOperator (env : Msg) (operator : NodeOperator) (s : State) : Result :=
  if env.sender ≠ s.owner then
    .error (.ownableUnauthorizedAccount env.sender)
  else if s.operatorBitmask = BitVec.allOnes 256 then
    .error .tooManyOperators
  else if operator.addr = 0 then
    .error .invalidOperator
  else if s.operatorSlotIndexes operator.addr ≠ 0 ∨ (s.operatorSlots 0).addr = operator.addr then
    .error .operatorExists
  else do
    s.validateOperatorData operator.data
    let slotIdx := findFirstUnset s.operatorBitmask
    let s := s.setOperator slotIdx operator
    s.emitNext (.nodeOperatorAdded operator.addr slotIdx operator.data)

def updateNodeOperatorData (env : Msg) (operatorAddress : Address) (newData : Bytes) (s : State) :
    Result :=
  if env.sender ≠ operatorAddress ∧ env.sender ≠ s.owner then
    .error .unauthorized
  else do
    s.validateOperatorData newData
    let slotIdx := s.operatorSlotIndexes operatorAddress
    let operator := s.operatorSlots slotIdx
    if operator.addr ≠ operatorAddress then
      .error .operatorNotFound
    else
      let s := { s with
        operatorSlots := Function.update s.operatorSlots slotIdx ⟨operator.addr, newData⟩ }
      s.emitNext (.nodeOperatorUpdated operatorAddress slotIdx newData)

def removeNodeOperator (env : Msg) (operatorAddr : Address) (s : State) : Result :=
  let slotIdx := s.operatorSlotIndexes operatorAddr
  if env.sender ≠ s.owner then
    .error (.ownableUnauthorizedAccount env.sender)
  else if (s.operatorSlots slotIdx).addr ≠ operatorAddr then
    .error .operatorNotFound
  else if countSet s.operatorBitmask ≤ s.settings.minOperators then
    .error .insufficientOperators
  else if s.migration.pullingOperatorBitmask ≠ 0 ∧
      (s.isSlotInKeyspace slotIdx 0 ∨ s.isSlotInKeyspace slotIdx 1) then
    .error .operatorInKeyspace
  else if s.migration.pullingOperatorBitmask = 0 ∧ s.isSlotInKeyspace slotIdx s.keyspaceIdx then
    .error .operatorInKeyspace
  else
    let s := { s with
      operatorSlots := Function.update s.operatorSlots slotIdx {}
      operatorSlotIndexes := Function.update s.operatorSlotIndexes operatorAddr 0
      operatorBitmask := unset s.operatorBitmask slotIdx }
    s.emitNext (.nodeOperatorRemoved operatorAddr slotIdx)

/-- Who holds the maintenance slot next: one can be started when it is free, and finished by its
holder and by the owner. -/
def nextMaintenanceSlot (env : Msg) (active : Bool) (s : State) : Except Revert Address :=
  if active then
    if s.maintenanceSlot ≠ 0 then .error .maintenanceInProgress else .ok env.sender
  else if s.maintenanceSlot ≠ env.sender ∧ env.sender ≠ s.owner then
    .error .unauthorized
  else
    .ok 0

def setMaintenance (env : Msg) (active : Bool) (s : State) : Result := do
  let maintenanceSlot ← nextMaintenanceSlot env active s
  let slotIdx := s.operatorSlotIndexes env.sender
  if env.sender ≠ s.owner ∧ (s.operatorSlots slotIdx).addr ≠ env.sender then
    .error .unauthorized
  else
    let s := { s with maintenanceSlot := maintenanceSlot }
    s.emitNext (.maintenanceToggled env.sender active)

def updateSettings (env : Msg) (newSettings : Settings) (s : State) : Result :=
  if env.sender ≠ s.owner then
    .error (.ownableUnauthorizedAccount env.sender)
  else if countSet s.operatorBitmask < newSettings.minOperators then
    .error .insufficientOperators
  else
    let s := { s with settings := newSettings }
    s.emitNext (.settingsUpdated newSettings env.sender)

/-! ## Ownership -/

def transferOwnership (env : Msg) (newOwner : Address) (s : State) : Result :=
  if env.sender ≠ s.owner then
    .error (.ownableUnauthorizedAccount env.sender)
  else
    .ok ({ s with pendingOwner := newOwner }, .ownershipTransferStarted s.owner newOwner)

/-- `_transferOwnership`, which also drops the pending transfer. -/
def State.setOwner (s : State) (newOwner : Address) : State × Event :=
  ({ s with owner := newOwner, pendingOwner := 0 }, .ownershipTransferred s.owner newOwner)

def acceptOwnership (env : Msg) (s : State) : Result :=
  if s.pendingOwner ≠ env.sender then
    .error (.ownableUnauthorizedAccount env.sender)
  else
    .ok (s.setOwner env.sender)

def renounceOwnership (env : Msg) (s : State) : Result :=
  if env.sender ≠ s.owner then
    .error (.ownableUnauthorizedAccount env.sender)
  else
    .ok (s.setOwner 0)

/-! ## Calls -/

inductive Call where
  | startMigration (newKeyspace : Keyspace)
  | completeMigration (id : Nat)
  | abortMigration (id : Nat)
  | addNodeOperator (operator : NodeOperator)
  | updateNodeOperatorData (operatorAddress : Address) (newData : Bytes)
  | removeNodeOperator (operatorAddr : Address)
  | setMaintenance (active : Bool)
  | updateSettings (newSettings : Settings)
  | transferOwnership (newOwner : Address)
  | acceptOwnership
  | renounceOwnership

def exec (env : Msg) : Call → State → Result
  | .startMigration newKeyspace => startMigration env newKeyspace
  | .completeMigration id => completeMigration env id
  | .abortMigration id => abortMigration env id
  | .addNodeOperator operator => addNodeOperator env operator
  | .updateNodeOperatorData operatorAddress newData =>
    updateNodeOperatorData env operatorAddress newData
  | .removeNodeOperator operatorAddr => removeNodeOperator env operatorAddr
  | .setMaintenance active => setMaintenance env active
  | .updateSettings newSettings => updateSettings env newSettings
  | .transferOwnership newOwner => transferOwnership env newOwner
  | .acceptOwnership => acceptOwnership env
  | .renounceOwnership => renounceOwnership env

/-! ## View functions -/

def isOperator (s : State) (addr : Address) : Bool :=
  let slotIdx := s.operatorSlotIndexes addr
  (s.operatorSlots slotIdx).addr == addr

def getView (s : State) : ClusterView where
  owner := s.owner
  settings := s.settings
  version := s.version
  keyspaceVersion := s.keyspaceVersion
  operatorSlots := (List.range ((findLastSet s.operatorBitmask).val + 1)).map fun i =>
    if isSet s.operatorBitmask (Fin.ofNat 256 i) then s.operatorSlots (Fin.ofNat 256 i) else {}
  keyspaces := s.keyspaces
  migration := s.migration
  maintenanceSlot := s.maintenanceSlot

end Contract
end Wcn
