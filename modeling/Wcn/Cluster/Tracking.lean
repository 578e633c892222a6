import Wcn.Cluster.Events

/-!
# Wcn.Cluster.Tracking

The view of a node that follows the contract by its events.

* `Shows cfg s state view` — the view shows the state of the contract, with the given state of the
  migration.
* `Tracks cfg s view` — the relation that events keep. Of a migration that is over, it does not say
  whether the view has it as aborted or as completed: a replayed view and a snapshot can differ in
  that.
* `shows_change`, `tracks_applyEvent` — what an accepted event makes of a view that tracks the state
  before the call.
-/

namespace Wcn
namespace Cluster

open Lib
open Contract (Address Bytes Env Call Transition)
open Contract.Bitmask

variable {S D : Type} {cfg : Config S D}

structure Shows (cfg : Config S D) (s : Contract.State) (state : Migration.State)
    (view : View S D) : Prop where
  operators : ∀ i, view.nodeOperators.getByIdx i = operatorAt cfg s i
  settings : cfg.settings (.ofContract s.settings) = .ok view.settings
  keyspace : view.keyspace = ⟨ones s.primaryKeyspace.operatorBitmask, .uniformDistribution⟩
  keyspaceVersion : view.keyspaceVersion = s.keyspaceVersion
  migration : view.migration = ⟨s.migration.id, s.migration.startedAt, state⟩
  maintenance : view.maintenance = holder s.maintenanceSlot

structure Tracks (cfg : Config S D) (s : Contract.State) (view : View S D) : Prop where
  shows : Shows cfg s view.migration.state view
  consistent : view.nodeOperators.Consistent
  migrating : s.migration.pullingOperatorBitmask ≠ 0 → view.migration.state = migrationState s
  idle : s.migration.pullingOperatorBitmask = 0 → view.migration.isInProgress = false
  clusterVersion : view.clusterVersion = s.version

/-! ## Migrations in progress -/

section Migrations

variable {s : Contract.State}

theorem migrationState_of_ne_zero (h : s.migration.pullingOperatorBitmask ≠ 0) :
    migrationState s = .started ⟨ones s.targetKeyspace.operatorBitmask, .uniformDistribution⟩
      (ones s.migration.pullingOperatorBitmask) := by
  rw [migrationState, if_pos h]

theorem migrationState_of_eq_zero (h : s.migration.pullingOperatorBitmask = 0) :
    migrationState s = if s.migration.startedAt ≤ s.migration.abortedAt then
      .aborted s.migration.abortedAt else .completed := by
  rw [migrationState, if_neg (not_not.mpr h)]

theorem isInProgress_eq_false {migration : Migration} : migration.isInProgress = false ↔
    ∀ keyspace pulling, migration.state ≠ .started keyspace pulling := by
  unfold Migration.isInProgress
  cases migration.state <;> simp

theorem isPulling_of_idle {migration : Migration} (h : migration.isInProgress = false) (i : Idx) :
    migration.isPulling i = false := by
  unfold Migration.isInProgress at h
  unfold Migration.isPulling
  cases hstate : migration.state with
  | started keyspace pulling => simp [hstate] at h
  | aborted time => rfl
  | completed => rfl

theorem pullingCount_of_idle {migration : Migration} (h : migration.isInProgress = false) :
    migration.pullingCount = 0 := by
  unfold Migration.isInProgress at h
  unfold Migration.pullingCount
  cases hstate : migration.state with
  | started keyspace pulling => simp [hstate] at h
  | aborted time => rfl
  | completed => rfl

end Migrations

/-! ## Snapshots track their states -/

section Mirrors

variable {s : Contract.State} {view : View S D}

theorem Mirrors.shows (hv : Mirrors cfg s view) : Shows cfg s (migrationState s) view :=
  ⟨hv.operators, hv.settings, hv.keyspace, hv.keyspaceVersion, hv.migration, hv.maintenance⟩

theorem Mirrors.tracks (hv : Mirrors cfg s view) : Tracks cfg s view := by
  have hstate : view.migration.state = migrationState s := by rw [hv.migration]
  refine ⟨hstate ▸ hv.shows, hv.consistent, fun _ => hstate, fun h0 => ?_, hv.clusterVersion⟩
  rw [isInProgress_eq_false, hstate, migrationState_of_eq_zero h0]
  intro keyspace pulling
  split <;> simp

end Mirrors

/-! ## Reading a view that tracks the state -/

namespace Tracks

variable {s : Contract.State} {view : View S D}

theorem getIdx_eq_some (hv : Tracks cfg s view) {a : Address} {i : Idx} :
    view.nodeOperators.getIdx a = some i ↔
      i ∈ ones s.operatorBitmask ∧ (s.operatorSlots i).addr = a := by
  rw [hv.consistent, hv.shows.operators, operatorAt]
  split_ifs with hi
  · simp [hi, NodeOperator.fromSc, SmartContract.NodeOperator.ofContract]
  · simp [hi]

theorem getIdx_eq_none (hv : Tracks cfg s view) {a : Address} :
    view.nodeOperators.getIdx a = none ↔
      ∀ i ∈ ones s.operatorBitmask, (s.operatorSlots i).addr ≠ a := by
  rw [Option.eq_none_iff_forall_ne_some]
  simp only [ne_eq, hv.getIdx_eq_some, not_and]

/-- An account that may act as an operator is one for the view. -/
theorem getIdx_of_isOperator (hv : Tracks cfg s view) (hs : Contract.Registry s) {a : Address}
    (ha : a ≠ 0) (hop : s.IsOperator a) :
    view.nodeOperators.getIdx a = some (s.operatorSlotIndexes a) :=
  hv.getIdx_eq_some.mpr ⟨hs.mem_of_isOperator ha hop, hop⟩

theorem getIdx_zero (hv : Tracks cfg s view) (hs : Contract.Registry s) :
    view.nodeOperators.getIdx 0 = none :=
  hv.getIdx_eq_none.mpr fun i hi => (hs.occupied i).mp hi

/-- The view finds an operator where the contract does. -/
theorem slot_of_getIdx (hv : Tracks cfg s view) (hs : Contract.Registry s) {a : Address}
    {idx slotIdx : Idx} (hget : view.nodeOperators.getIdx a = some idx)
    (hidx : s.operatorSlotIndexes a = slotIdx) :
    slotIdx ∈ ones s.operatorBitmask ∧ idx = slotIdx := by
  obtain ⟨hmem, rfl⟩ := hv.getIdx_eq_some.mp hget
  rw [hs.indexed idx hmem] at hidx
  exact ⟨hidx ▸ hmem, hidx⟩

/-- The view has a slot for every operator. -/
theorem lt_length (hv : Tracks cfg s view) {i : Idx} (hi : i ∈ ones s.operatorBitmask) :
    i.val < view.nodeOperators.slots.length := by
  have hslot := hv.shows.operators i
  rw [operatorAt, if_pos hi, NodeOperators.getByIdx] at hslot
  by_contra hge
  rw [List.getElem?_eq_none (Nat.le_of_not_lt hge)] at hslot
  cases hslot

/-- The first free slot of the contract is at most one beyond those of the view. -/
theorem findFirstUnset_le_length (hv : Tracks cfg s view)
    (hfull : s.operatorBitmask ≠ BitVec.allOnes 256) (h0 : s.operatorBitmask ≠ 0) :
    (findFirstUnset s.operatorBitmask).val ≤ view.nodeOperators.slots.length :=
  (findFirstUnset_le hfull h0).trans (hv.lt_length (findLastSet_mem h0).1)

theorem started (hv : Tracks cfg s view) (h : s.migration.pullingOperatorBitmask ≠ 0) :
    view.migration.state = .started ⟨ones s.targetKeyspace.operatorBitmask, .uniformDistribution⟩
      (ones s.migration.pullingOperatorBitmask) :=
  (hv.migrating h).trans (migrationState_of_ne_zero h)

theorem isInProgress (hv : Tracks cfg s view) :
    view.migration.isInProgress = true ↔ s.migration.pullingOperatorBitmask ≠ 0 := by
  by_cases h : s.migration.pullingOperatorBitmask = 0
  · exact iff_of_false (Bool.eq_false_iff.mp (hv.idle h)) (not_not.mpr h)
  · refine iff_of_true ?_ h
    rw [Migration.isInProgress, hv.started h]

theorem isPulling (hv : Tracks cfg s view) {i : Idx} :
    view.migration.isPulling i = true ↔ i ∈ ones s.migration.pullingOperatorBitmask := by
  by_cases h : s.migration.pullingOperatorBitmask = 0
  · refine iff_of_false (Bool.eq_false_iff.mp (isPulling_of_idle (hv.idle h) i)) ?_
    rw [h, ones_zero]
    exact Finset.notMem_empty i
  · rw [Migration.isPulling, hv.started h]
    exact decide_eq_true_iff

theorem pullingCount (hv : Tracks cfg s view) :
    view.migration.pullingCount = countSet s.migration.pullingOperatorBitmask := by
  by_cases h : s.migration.pullingOperatorBitmask = 0
  · rw [pullingCount_of_idle (hv.idle h), h, countSet, ones_zero, Finset.card_empty]
  · rw [Migration.pullingCount, hv.started h, countSet]

theorem maintenance_eq_none (hv : Tracks cfg s view) :
    view.maintenance = none ↔ s.maintenanceSlot = 0 := by
  rw [hv.shows.maintenance, holder]
  split_ifs with h
  · exact iff_of_true rfl h
  · exact iff_of_false (by simp) h

theorem keyspace_eq_some (hv : Tracks cfg s view)
    (h : s.migration.pullingOperatorBitmask ≠ 0) :
    view.migration.keyspace =
      some ⟨ones s.targetKeyspace.operatorBitmask, .uniformDistribution⟩ := by
  rw [Migration.keyspace, hv.started h]

end Tracks

/-! ## What an event makes of a view -/

/-- What the event of a call makes of the state of the migration. -/
def replayedState (env : Env) (call : Call) (s' : Contract.State) (state : Migration.State) :
    Migration.State :=
  match call with
  | .startMigration _ => migrationState s'
  | .completeMigration _ =>
    if s'.migration.pullingOperatorBitmask = 0 then .completed else migrationState s'
  | .abortMigration _ => .aborted env.timestamp
  | _ => state

section Change

variable {s s' : Contract.State} {env : Env} {call : Call} {event : Contract.Event}
  {e : SmartContract.Event} {view view' : View S D}

/-- Changing one slot on both sides. -/
theorem operators_set (hv : Tracks cfg s view) {idx : Idx} {slot : Option (NodeOperator D)}
    {operators : NodeOperators D} (hset : view.nodeOperators.set idx slot = some operators)
    (hslot : operatorAt cfg s' idx = slot)
    (hother : ∀ i, i ≠ idx → operatorAt cfg s' i = operatorAt cfg s i) (i : Idx) :
    operators.getByIdx i = operatorAt cfg s' i := by
  rw [NodeOperators.getByIdx_set hset]
  by_cases hi : i = idx
  · rw [if_pos hi, hi, hslot]
  · rw [if_neg hi, hother i hi, hv.shows.operators]

theorem operatorAt_congr {i : Idx}
    (hmem : i ∈ ones s'.operatorBitmask ↔ i ∈ ones s.operatorBitmask)
    (hslot : s'.operatorSlots i = s.operatorSlots i) :
    operatorAt cfg s' i = operatorAt cfg s i := by
  simp only [operatorAt, hmem, hslot]

theorem shows_change (hs : Contract.Registry s) (hv : Tracks cfg s view)
    (h : Transition env s call s' event)
    (he : SmartContract.Event.tryFrom env.timestamp event = some e)
    (haccept : view.change cfg e = .ok view') :
    Shows cfg s' (replayedState env call s' view.migration.state) view' := by
  have hshows := hv.shows
  cases h with
  | @startMigration newKeyspace _ _ hidle _ _ _ _ _ _ =>
    cases he
    obtain ⟨_, _, _, hcount, _, _, _, rfl⟩ := View.migrationStarted_eq_ok.mp haccept
    have hne : newKeyspace.operatorBitmask ≠ 0 := ne_zero_of_countSet hcount
    refine ⟨hshows.operators, hshows.settings, ?_, ?_, ?_, hshows.maintenance⟩
    · rw [Contract.State.primaryKeyspace_started hidle hne]
      exact hshows.keyspace
    · rw [hshows.keyspaceVersion]
    · rw [replayedState, migrationState_of_ne_zero hne, Contract.State.targetKeyspace_started]
      rfl
  | @completePull slotIdx hidx hop hmem hrest _ =>
    cases he
    obtain ⟨idx, hget, _, _, _, rfl⟩ := View.migrationDataPullCompleted_eq_ok.mp haccept
    have hne := ne_zero_of_mem_ones hmem
    rw [hv.getIdx_of_isOperator hs env.sender_ne_zero hop, hidx, Option.some.injEq] at hget
    subst hget
    refine ⟨hshows.operators, hshows.settings, ?_, hshows.keyspaceVersion, ?_, hshows.maintenance⟩
    · rw [Contract.State.primaryKeyspace_pulled hne hrest]
      exact hshows.keyspace
    · rw [replayedState, if_neg hrest, migrationState_of_ne_zero hrest, ones_unset,
        Migration.completePull]
      simp only [hv.started hne]
      rw [hshows.migration]
      rfl
  | @completeMigration slotIdx hidx hop hmem hrest _ =>
    cases he
    obtain ⟨idx, keyspace, _, hkeyspace, _, _, _, rfl⟩ := View.migrationCompleted_eq_ok.mp haccept
    have hne := ne_zero_of_mem_ones hmem
    rw [hv.keyspace_eq_some hne, Option.some.injEq] at hkeyspace
    subst hkeyspace
    refine ⟨hshows.operators, hshows.settings, ?_, hshows.keyspaceVersion, ?_, hshows.maintenance⟩
    · rw [Contract.State.primaryKeyspace_idle rfl]
      rfl
    · rw [hshows.migration, replayedState, if_pos rfl]
  | abortMigration _ hne _ _ =>
    cases he
    obtain ⟨_, _, _, rfl⟩ := View.migrationAborted_eq_ok.mp haccept
    refine ⟨hshows.operators, hshows.settings, ?_, ?_, ?_, hshows.maintenance⟩
    · rw [Contract.State.primaryKeyspace_aborted hne rfl]
      exact hshows.keyspace
    · rw [hshows.keyspaceVersion]
    · rw [hshows.migration, replayedState]
  | @addNodeOperator operator _ _ _ _ _ _ _ =>
    cases he
    obtain ⟨_, _, operators, hset, rfl⟩ := View.nodeOperatorAdded_eq_ok.mp haccept
    refine ⟨operators_set hv hset ?_ fun i hi => operatorAt_congr ?_ ?_, hshows.settings,
      hshows.keyspace, hshows.keyspaceVersion, hshows.migration, hshows.maintenance⟩
    · simp [operatorAt, Contract.State.setOperator, ones_set, SmartContract.NodeOperator.ofContract]
    · simp [Contract.State.setOperator, ones_set, hi]
    · exact Function.update_of_ne hi ..
  | @updateNodeOperatorData a newData slotIdx _ _ hidx haddr _ =>
    cases he
    obtain ⟨idx, operators, hget, hset, rfl⟩ := View.nodeOperatorUpdated_eq_ok.mp haccept
    obtain ⟨hmem, rfl⟩ := hv.slot_of_getIdx hs hget hidx
    refine ⟨operators_set hv hset ?_ fun i hi => operatorAt_congr Iff.rfl ?_, hshows.settings,
      hshows.keyspace, hshows.keyspaceVersion, hshows.migration, hshows.maintenance⟩
    · rw [operatorAt, if_pos hmem]
      dsimp only
      rw [Function.update_self]
      rfl
    · exact Function.update_of_ne hi ..
  | @removeNodeOperator a slotIdx _ hidx haddr _ _ _ _ =>
    cases he
    obtain ⟨idx, operators, hget, hset, rfl⟩ := View.nodeOperatorRemoved_eq_ok.mp haccept
    obtain ⟨hmem, rfl⟩ := hv.slot_of_getIdx hs hget hidx
    refine ⟨operators_set hv hset ?_ fun i hi => operatorAt_congr ?_ ?_, hshows.settings,
      hshows.keyspace, hshows.keyspaceVersion, hshows.migration, hshows.maintenance⟩
    · rw [operatorAt, ones_unset, if_neg (Finset.notMem_erase _ _)]
    · rw [ones_unset, Finset.mem_erase, and_iff_right hi]
    · exact Function.update_of_ne hi ..
  | startMaintenance _ _ _ =>
    cases he
    obtain ⟨_, _, rfl⟩ := View.maintenanceStarted_eq_ok.mp haccept
    exact ⟨hshows.operators, hshows.settings, hshows.keyspace, hshows.keyspaceVersion,
      hshows.migration, (if_neg env.sender_ne_zero).symm⟩
  | finishMaintenance _ _ _ =>
    cases he
    obtain ⟨_, rfl⟩ := View.maintenanceFinished_eq_ok.mp haccept
    exact ⟨hshows.operators, hshows.settings, hshows.keyspace, hshows.keyspaceVersion,
      hshows.migration, rfl⟩
  | updateSettings _ _ _ =>
    cases he
    obtain ⟨settings, hsettings, rfl⟩ := View.settingsUpdated_eq_ok.mp haccept
    exact ⟨hshows.operators, hsettings, hshows.keyspace, hshows.keyspaceVersion,
      hshows.migration, hshows.maintenance⟩
  | transferOwnership _ => cases he
  | acceptOwnership _ => cases he
  | renounceOwnership _ => cases he

/-- A cluster event carries the next version, which is that of the new state. -/
theorem clusterVersion_tryFrom {env : Contract.Msg} (h : Transition env s call s' event)
    (he : SmartContract.Event.tryFrom env.timestamp event = some e) :
    e.clusterVersion = s.version + 1 ∧ s'.version = s.version + 1 := by
  cases h <;> cases he <;> exact ⟨rfl, rfl⟩

theorem replayedState_migrating (hv : Tracks cfg s view) (h : Transition env s call s' event)
    (hne : s'.migration.pullingOperatorBitmask ≠ 0) :
    replayedState env call s' view.migration.state = migrationState s' := by
  cases h with
  | startMigration _ _ _ _ _ _ _ _ _ => rfl
  | completePull _ _ _ _ _ => exact if_neg hne
  | completeMigration _ _ _ _ _ => exact absurd rfl hne
  | abortMigration _ _ _ _ => exact absurd rfl hne
  | _ => exact hv.migrating hne

theorem replayedState_idle (hv : Tracks cfg s view) (h : Transition env s call s' event)
    (he : SmartContract.Event.tryFrom env.timestamp event = some e)
    (haccept : view.change cfg e = .ok view') (h0 : s'.migration.pullingOperatorBitmask = 0)
    (keyspace : Keyspace) (pulling : Finset Idx) :
    replayedState env call s' view.migration.state ≠ .started keyspace pulling := by
  cases h with
  | startMigration _ _ _ _ _ _ _ _ _ =>
    cases he
    obtain ⟨_, _, _, hcount, _⟩ := View.migrationStarted_eq_ok.mp haccept
    exact absurd h0 (ne_zero_of_countSet hcount)
  | completePull _ _ _ hrest _ => exact absurd h0 hrest
  | completeMigration _ _ _ _ _ =>
    rw [replayedState, if_pos rfl]
    simp
  | abortMigration _ _ _ _ => simp [replayedState]
  | _ => exact isInProgress_eq_false.mp (hv.idle h0) keyspace pulling

theorem tracks_applyEvent (hs : Contract.Registry s) (hv : Tracks cfg s view)
    (h : Transition env s call s' event)
    (he : SmartContract.Event.tryFrom env.timestamp event = some e)
    (haccept : view.applyEvent cfg e = .ok view') : Tracks cfg s' view' := by
  obtain ⟨_, changed, hchange, rfl⟩ := View.applyEvent_eq_ok.mp haccept
  have hshows := shows_change hs hv h he hchange
  have hcons := View.consistent_change hv.consistent hchange
  have hversion := clusterVersion_tryFrom h he
  have hstate : changed.migration.state = replayedState env call s' view.migration.state := by
    rw [hshows.migration]
  constructor
  case shows =>
    exact ⟨hshows.operators, hshows.settings, hshows.keyspace, hshows.keyspaceVersion,
      hstate ▸ hshows.migration, hshows.maintenance⟩
  case consistent => exact hcons
  case migrating =>
    intro hne
    exact hstate.trans (replayedState_migrating hv h hne)
  case idle =>
    intro h0
    rw [isInProgress_eq_false]
    intro keyspace pulling heq
    exact replayedState_idle hv h he hchange h0 keyspace pulling (hstate.symm.trans heq)
  case clusterVersion => exact hversion.1.trans hversion.2.symm

theorem Tracks.owner (hv : Tracks cfg s view) (owner pendingOwner : Address) :
    Tracks cfg { s with owner := owner, pendingOwner := pendingOwner } view :=
  ⟨⟨hv.shows.operators, hv.shows.settings, hv.shows.keyspace, hv.shows.keyspaceVersion,
    hv.shows.migration, hv.shows.maintenance⟩, hv.consistent, hv.migrating, hv.idle,
    hv.clusterVersion⟩

/-- A call without a cluster event changes nothing that a view tracks. -/
theorem tracks_of_tryFrom_eq_none (hv : Tracks cfg s view) (h : Transition env s call s' event)
    (he : SmartContract.Event.tryFrom env.timestamp event = none) : Tracks cfg s' view := by
  cases h with
  | transferOwnership _ => exact hv.owner _ _
  | acceptOwnership _ => exact hv.owner _ _
  | renounceOwnership _ => exact hv.owner _ _
  | _ => cases he

end Change

end Cluster
end Wcn
