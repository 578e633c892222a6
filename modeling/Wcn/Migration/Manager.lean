import Wcn.Storage.Engine
import Wcn.Rpc.WriteData
import Wcn.Migration.Handover

/-!
# Wcn.Migration.Manager

The task that takes an operator through the migrations of the cluster.

* `Manager` — the loop of the task: its state, the future that does the work of this state, and how it
  handles events. A new state drops the future of the old one.
* `Future`, `Polls` — where the future of a state waits, and what it can do next. It reads the node's
  view each time anew, except that a transfer keeps the view it read its shards from. A future that
  failed is retried from its start, without end.
* `TransferRun` — a run of `transfer_data` from then on. A shard counts as transferred when
  `transfer_shard` returned `Ok` to its caller; `Wcn.Rpc.WriteData` models what happens at both ends.
-/

namespace Wcn
namespace Migration

open Lib Cluster
open Contract (Address)
open Contract.Bitmask (Idx)
open Sharding (ShardId)

variable {D : Type}

/-! ## States -/

inductive State where
  | transferringData (migrationId : Nat)
  | completingMigration (migrationId : Nat)
  | awaitingMigrationCompletion (migrationId : Nat)
  | idle
deriving DecidableEq

namespace State

def migrationId : State → Option Nat
  | transferringData migrationId => some migrationId
  | completingMigration migrationId => some migrationId
  | awaitingMigrationCompletion migrationId => some migrationId
  | idle => none

def canShutdown : State → Bool
  | transferringData _ | completingMigration _ => false
  | awaitingMigrationCompletion _ | idle => true

end State

inductive Event where
  | clusterUpdate
  | stateTransition (state : State)
  | shutdown

def syncState (current : State) (view : View Settings D) : Option State :=
  match current.migrationId, view.ongoingMigrationId with
  | some a, some b => if a = b then none else some (.transferringData b)
  | none, none => none
  | some _, none => some .idle
  | none, some id => some (.transferringData id)

/-! ## Transfers -/

abbrev Key := Storage.ColumnFamilyName × Bytes

abbrev Database := Storage.Database Key Bytes

/-- What the nodes of a source answer, in the order they are tried, when they are asked for a range of
keys at a keyspace version. -/
abbrev ReadData := UInt64 × UInt64 → Nat →
  List (Except StorageApi.ErrorKind (Rpc.DataStream Key Bytes))

structure TransferRun (D : Type) where
  migrationId : Nat
  /-- The view that the shards were read from. -/
  clusterView : View Settings D
  /-- When they were read. -/
  now : OffsetDateTime
  keyspaceVersion : Nat
  /-- The shards that are not transferred yet. They are pulled concurrently, each of them until it
  succeeds. -/
  remaining : List (ShardId × NodeOperator D)
  transferred : List (ShardId × NodeOperator D)

namespace TransferRun

/-- `transfer_data` once it is scheduled, with the times at which it asks for the keyspace version and
for the secondary shards. No result means that there are none. -/
def start (hash : Idx → Nat → UInt64) (nodeOperatorId : Address) (migrationId : Nat)
    (clusterView : View Settings D) (now now' : OffsetDateTime) :
    Except Panic (Option (TransferRun D)) := do
  let keyspaceVersion ← clusterView.effectiveKeyspaceVersion now
  let primaryShards ← clusterView.primaryKeyspaceShards hash
  let secondaryShards ← clusterView.secondaryKeyspaceShards hash now'
  match secondaryShards with
  | none => .ok none
  | some secondaryShards => do
    let shards ← shardTransfers nodeOperatorId primaryShards secondaryShards
    .ok (some ⟨migrationId, clusterView, now', keyspaceVersion, shards, []⟩)

/-- A shard was transferred. -/
def complete (run : TransferRun D) (idx : Nat) (shard : ShardId × NodeOperator D) : TransferRun D :=
  { run with remaining := run.remaining.eraseIdx idx, transferred := shard :: run.transferred }

end TransferRun

/-- Once writes are shadowed, the shards are found, whatever they are. -/
theorem TransferRun.exists_start {view : View Settings D} (hview : view.Routable)
    (hash : Idx → Nat → UInt64) (nodeOperatorId : Address) (migrationId : Nat)
    (now : OffsetDateTime) {now' : OffsetDateTime}
    (h : view.isSecondaryKeyspaceShadowingOn now' = .ok true) :
    ∃ run, start hash nodeOperatorId migrationId view now now' = .ok (some run) := by
  have hprogress := View.isInProgress_of_shadowing h
  obtain ⟨secondary, hsecondary⟩ := View.isInProgress_iff.mp hprogress
  have hmax : view.effectiveAt view.migration.startedAt ≤ maxNanos := by
    rw [View.isSecondaryKeyspaceShadowingOn, if_pos hprogress] at h
    exact (View.hasPropagated_eq_ok.mp h).1
  obtain ⟨version, hversion⟩ : ∃ version, view.effectiveKeyspaceVersion now = .ok version :=
    ⟨_, (View.effectiveKeyspaceVersion_eq_ok (View.versionChange_of_progress hprogress)).mpr
      ⟨hmax, rfl⟩⟩
  obtain ⟨old, hold, hreplicates⟩ :=
    View.exists_keyspaceShards hview.consistent hview.sized.primary hview.primary hash
  obtain ⟨new, hnew, hreplicates'⟩ :=
    View.exists_keyspaceShards hview.consistent (hview.sized.secondary secondary hsecondary)
      (hview.secondary secondary hsecondary) hash
  obtain ⟨shards, hshards⟩ := exists_shardTransfers nodeOperatorId hreplicates hreplicates'
  have hshadowed := View.secondaryKeyspaceShards_eq_some.mpr ⟨h, secondary, hsecondary, hnew⟩
  refine ⟨⟨migrationId, view, now', version, shards, []⟩, ?_⟩
  refine bind_eq_ok.mpr ⟨version, hversion, bind_eq_ok.mpr ⟨old, hold, ?_⟩⟩
  exact bind_eq_ok.mpr ⟨some new, hshadowed, bind_eq_ok.mpr ⟨shards, hshards, rfl⟩⟩

/-! ## Futures -/

/-- Where the future of a state is. -/
inductive Future (D : Type) where
  /-- At the start of `transfer_data`. -/
  | transferData (migrationId : Nat)
  /-- Until data may be pulled. -/
  | sleeping (migrationId : Nat)
  | transferring (run : TransferRun D)
  /-- At the start of `complete_migration`. -/
  | completeMigration (migrationId : Nat)
  /-- The call of the contract is on its way. -/
  | submitting (migrationId : Nat)
  /-- Until the view shows that the operator is not pulling. -/
  | confirming (migrationId : Nat)
  | awaitMigrationCompletion (migrationId : Nat)
  | pending

def stateFuture : State → Future D
  | .transferringData migrationId => .transferData migrationId
  | .completingMigration migrationId => .completeMigration migrationId
  | .awaitingMigrationCompletion migrationId => .awaitMigrationCompletion migrationId
  | .idle => .pending

inductive Outcome (D : Type) where
  | running (future : Future D)
  /-- Calls `completeMigration` of the contract. -/
  | sent (future : Future D) (migrationId : Nat)
  /-- `transfer_data` returns. -/
  | transferReturned (run : TransferRun D)
  | returned (state : State)
  | failed
  | panicked

/-- What a future can do when it is polled, for the view at this time. -/
inductive Polls (hash : Idx → Nat → UInt64) (nodeOperatorId : Address) (view : View Settings D) :
    Future D → Outcome D → Prop where
  | scheduled {migrationId : Nat} {startAt : OffsetDateTime} :
      view.dataPullScheduledAfter = .ok (some startAt) →
      Polls hash nodeOperatorId view (.transferData migrationId) (.running (.sleeping migrationId))
  | missingMigration {migrationId : Nat} : view.dataPullScheduledAfter = .ok none →
      Polls hash nodeOperatorId view (.transferData migrationId) .failed
  | schedulePanics {migrationId : Nat} {panic : Panic} :
      view.dataPullScheduledAfter = .error panic →
      Polls hash nodeOperatorId view (.transferData migrationId) .panicked
  | started {migrationId : Nat} {now now' : OffsetDateTime} {run : TransferRun D} :
      TransferRun.start hash nodeOperatorId migrationId view now now' = .ok (some run) →
      Polls hash nodeOperatorId view (.sleeping migrationId) (.running (.transferring run))
  | missingShards {migrationId : Nat} {now now' : OffsetDateTime} :
      TransferRun.start hash nodeOperatorId migrationId view now now' = .ok none →
      Polls hash nodeOperatorId view (.sleeping migrationId) .failed
  | startPanics {migrationId : Nat} {now now' : OffsetDateTime} {panic : Panic} :
      TransferRun.start hash nodeOperatorId migrationId view now now' = .error panic →
      Polls hash nodeOperatorId view (.sleeping migrationId) .panicked
  | shardTransferred {run : TransferRun D} {idx : Nat} {shard : ShardId × NodeOperator D}
      {host : Storage.Host} {readData : ReadData} {db : Database} {transfer : Rpc.State Key Bytes} :
      run.remaining[idx]? = some shard →
      -- `transfer_shard` returned `Ok`
      Run (Rpc.Step host)
        (Rpc.transferShard (readData shard.1.keyRange run.keyspaceVersion) db) transfer →
      transfer.client = .returned (.ok ()) →
      Polls hash nodeOperatorId view (.transferring run)
        (.running (.transferring (run.complete idx shard)))
  | transferred {run : TransferRun D} : run.remaining = [] →
      Polls hash nodeOperatorId view (.transferring run) (.transferReturned run)
  | submits {migrationId : Nat} :
      view.checkCompleteMigration nodeOperatorId migrationId = .ok () →
      Polls hash nodeOperatorId view (.completeMigration migrationId)
        (.sent (.submitting migrationId) migrationId)
  | notPulling {migrationId : Nat} {operatorIdx : Idx} :
      view.checkCompleteMigration nodeOperatorId migrationId = .error (.notPulling operatorIdx) →
      Polls hash nodeOperatorId view (.completeMigration migrationId)
        (.returned (.awaitingMigrationCompletion migrationId))
  | notCompletable {migrationId : Nat} {e : View.Error} :
      view.checkCompleteMigration nodeOperatorId migrationId = .error e →
      (∀ operatorIdx, e ≠ .notPulling operatorIdx) →
      Polls hash nodeOperatorId view (.completeMigration migrationId) .failed
  | submitted {migrationId : Nat} :
      Polls hash nodeOperatorId view (.submitting migrationId) (.running (.confirming migrationId))
  | submissionFailed {migrationId : Nat} :
      Polls hash nodeOperatorId view (.submitting migrationId) .failed
  | confirmed {migrationId : Nat} : view.isPulling nodeOperatorId = false →
      Polls hash nodeOperatorId view (.confirming migrationId)
        (.returned (.awaitingMigrationCompletion migrationId))
  | unconfirmed {migrationId : Nat} :
      Polls hash nodeOperatorId view (.confirming migrationId) .failed
  | pullingAgain {migrationId : Nat} : view.isPulling nodeOperatorId = true →
      Polls hash nodeOperatorId view (.awaitMigrationCompletion migrationId)
        (.returned (.completingMigration migrationId))

/-! ## The loop -/

structure Manager (D : Type) where
  state : State
  stateFut : Future D
  isShuttingDown : Bool

namespace Manager

def new : Manager D := ⟨.idle, stateFuture .idle, false⟩

/-- No result means that the task ends. -/
def transition (self : Manager D) : Option State → Option (Manager D)
  | none => some self
  | some newState =>
    if self.isShuttingDown && self.state.canShutdown then none
    else some { self with state := newState, stateFut := stateFuture newState }

def handle (self : Manager D) (view : View Settings D) : Event → Option (Manager D)
  | .clusterUpdate => self.transition (syncState self.state view)
  | .stateTransition state => self.transition (some state)
  | .shutdown =>
    if self.state.canShutdown then none else some { self with isShuttingDown := true }

/-- A failed future starts again. -/
def retry (self : Manager D) : Manager D := { self with stateFut := stateFuture self.state }

end Manager

end Migration
end Wcn
