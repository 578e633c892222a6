import Wcn.Cluster.Snapshot

/-!
# Wcn.Cluster.Events

When a view accepts an event, and what the event makes of it.

* One lemma for each kind of event, and `applyEvent_eq_ok` for all of them.
* `consistent_change`, `frame_change` — what every event keeps.
-/

namespace Wcn
namespace Cluster
namespace View

open Lib
open Contract (Address Bytes)
open Contract.Bitmask (Idx)

variable {S D : Type} {cfg : Config S D} {view view' : View S D}

theorem requireNoMigration_eq_ok {u : Unit} :
    view.requireNoMigration = .ok u ↔ view.migration.isInProgress = false := by
  unfold requireNoMigration
  split_ifs with h <;> simp [h]

theorem requireNoMaintenance_eq_ok {u : Unit} :
    view.requireNoMaintenance = .ok u ↔ view.maintenance = none := by
  unfold requireNoMaintenance
  cases view.maintenance <;> simp

theorem requireMigration_eq_ok {u : Unit} :
    view.requireMigration = .ok u ↔ view.migration.isInProgress = true := by
  unfold requireMigration
  split_ifs with h <;> simp [h]

theorem requireId_eq_ok {id : Nat} {u : Unit} :
    view.requireId id = .ok u ↔ id = view.migration.id := by
  unfold requireId
  split_ifs with h <;> simp_all

theorem requirePulling_eq_ok {idx : Idx} {u : Unit} :
    view.requirePulling idx = .ok u ↔ view.migration.isPulling idx = true := by
  unfold requirePulling
  split_ifs with h <;> simp [h]

theorem requirePullingCount_eq_ok {expected : Nat} {u : Unit} :
    view.requirePullingCount expected = .ok u ↔ view.migration.pullingCount = expected := by
  unfold requirePullingCount
  split_ifs with h <;> simp_all

theorem requireIdx_eq_ok {id : Address} {idx : Idx} :
    view.requireIdx id = .ok idx ↔ view.nodeOperators.getIdx id = some idx := by
  unfold requireIdx
  cases view.nodeOperators.getIdx id <;> simp

theorem setSlot_eq_ok {idx : Idx} {slot : Option (NodeOperator D)} :
    view.setSlot idx slot = .ok view' ↔ ∃ operators,
      view.nodeOperators.set idx slot = some operators ∧
        view' = { view with nodeOperators := operators } := by
  unfold setSlot
  cases view.nodeOperators.set idx slot <;> simp [eq_comm]

theorem isInProgress_iff {migration : Migration} :
    migration.isInProgress = true ↔ ∃ keyspace, migration.keyspace = some keyspace := by
  unfold Migration.isInProgress Migration.keyspace
  cases migration.state <;> simp

theorem migrationStarted_eq_ok {migrationId time : Nat} {newKeyspace : SmartContract.Keyspace} :
    view.migrationStarted migrationId newKeyspace time = .ok view' ↔
      view.migration.isInProgress = false ∧ view.maintenance = none ∧
      newKeyspace.replicationStrategy = 0 ∧ 5 ≤ newKeyspace.operators.card ∧
      Keyspace.validate ⟨newKeyspace.operators, .uniformDistribution⟩ view.nodeOperators = true ∧
      view.keyspace ≠ ⟨newKeyspace.operators, .uniformDistribution⟩ ∧
      time ≤ Migration.maxTimestamp ∧
      view' = { view with
        migration := ⟨migrationId, time,
          .started ⟨newKeyspace.operators, .uniformDistribution⟩ newKeyspace.operators⟩
        keyspaceVersion := view.keyspaceVersion + 1 } := by
  unfold migrationStarted
  simp only [bind_eq_ok, requireNoMigration_eq_ok, requireNoMaintenance_eq_ok, mapError_eq_ok,
    Keyspace.tryFrom_eq_ok]
  constructor
  · rintro ⟨_, hmigration, _, hmaintenance, _, ⟨hstrategy, hcount, rfl⟩, h⟩
    split_ifs at h with hvalid hdiff
    simp only [bind_eq_ok, mapError_eq_ok, Migration.parseTimestamp_eq_ok, Except.ok.injEq] at h
    obtain ⟨_, ⟨htime, rfl⟩, rfl⟩ := h
    exact ⟨hmigration, hmaintenance, hstrategy, hcount, hvalid, hdiff, htime, rfl⟩
  · rintro ⟨hmigration, hmaintenance, hstrategy, hcount, hvalid, hdiff, htime, rfl⟩
    refine ⟨(), hmigration, (), hmaintenance, _, ⟨hstrategy, hcount, rfl⟩, ?_⟩
    rw [if_neg (not_not.mpr hvalid), if_neg hdiff]
    simp only [bind_eq_ok, mapError_eq_ok, Migration.parseTimestamp_eq_ok, Except.ok.injEq]
    exact ⟨_, ⟨htime, rfl⟩, rfl⟩

theorem migrationDataPullCompleted_eq_ok {migrationId : Nat} {operatorId : Address} :
    view.migrationDataPullCompleted migrationId operatorId = .ok view' ↔ ∃ idx,
      view.nodeOperators.getIdx operatorId = some idx ∧ view.migration.isInProgress = true ∧
      migrationId = view.migration.id ∧ view.migration.isPulling idx = true ∧
      view' = { view with migration := view.migration.completePull idx } := by
  unfold migrationDataPullCompleted
  simp only [bind_eq_ok, requireIdx_eq_ok, requireMigration_eq_ok, requireId_eq_ok,
    requirePulling_eq_ok, Except.ok.injEq]
  constructor
  · rintro ⟨idx, hidx, _, hmigration, _, hid, _, hpulling, rfl⟩
    exact ⟨idx, hidx, hmigration, hid, hpulling, rfl⟩
  · rintro ⟨idx, hidx, hmigration, hid, hpulling, rfl⟩
    exact ⟨idx, hidx, (), hmigration, (), hid, (), hpulling, rfl⟩

theorem migrationCompleted_eq_ok {migrationId : Nat} {operatorId : Address} :
    view.migrationCompleted migrationId operatorId = .ok view' ↔ ∃ idx keyspace,
      view.nodeOperators.getIdx operatorId = some idx ∧ view.migration.keyspace = some keyspace ∧
      migrationId = view.migration.id ∧ view.migration.isPulling idx = true ∧
      view.migration.pullingCount = 1 ∧
      view' = { view with
        keyspace := keyspace, migration := { view.migration with state := .completed } } := by
  unfold migrationCompleted
  simp only [bind_eq_ok, requireIdx_eq_ok, requireMigration_eq_ok, requireId_eq_ok,
    requirePulling_eq_ok, requirePullingCount_eq_ok]
  constructor
  · rintro ⟨idx, hidx, _, hmigration, _, hid, _, hpulling, _, hcount, h⟩
    split at h
    · next keyspace hkeyspace =>
      cases h
      exact ⟨idx, keyspace, hidx, hkeyspace, hid, hpulling, hcount, rfl⟩
    · cases h
  · rintro ⟨idx, keyspace, hidx, hkeyspace, hid, hpulling, hcount, rfl⟩
    have hprogress := isInProgress_iff.mpr ⟨keyspace, hkeyspace⟩
    refine ⟨idx, hidx, (), hprogress, (), hid, (), hpulling, (), hcount, ?_⟩
    rw [hkeyspace]

theorem migrationAborted_eq_ok {migrationId time : Nat} :
    view.migrationAborted migrationId time = .ok view' ↔
      view.migration.isInProgress = true ∧ migrationId = view.migration.id ∧
      time ≤ Migration.maxTimestamp ∧
      view' = { view with
        migration := { view.migration with state := .aborted time }
        keyspaceVersion := view.keyspaceVersion - 1 } := by
  unfold migrationAborted
  simp only [bind_eq_ok, requireMigration_eq_ok, requireId_eq_ok, mapError_eq_ok,
    Migration.parseTimestamp_eq_ok, Except.ok.injEq]
  constructor
  · rintro ⟨_, hmigration, _, hid, _, ⟨htime, rfl⟩, rfl⟩
    exact ⟨hmigration, hid, htime, rfl⟩
  · rintro ⟨hmigration, hid, htime, rfl⟩
    exact ⟨(), hmigration, (), hid, _, ⟨htime, rfl⟩, rfl⟩

theorem maintenanceStarted_eq_ok {startedBy : Address} :
    view.maintenanceStarted startedBy = .ok view' ↔
      view.migration.isInProgress = false ∧ view.maintenance = none ∧
      view' = { view with maintenance := some startedBy } := by
  unfold maintenanceStarted
  simp only [bind_eq_ok, requireNoMigration_eq_ok, requireNoMaintenance_eq_ok, Except.ok.injEq]
  constructor
  · rintro ⟨_, hmigration, _, hmaintenance, rfl⟩
    exact ⟨hmigration, hmaintenance, rfl⟩
  · rintro ⟨hmigration, hmaintenance, rfl⟩
    exact ⟨(), hmigration, (), hmaintenance, rfl⟩

theorem maintenanceFinished_eq_ok :
    view.maintenanceFinished = .ok view' ↔
      view.maintenance ≠ none ∧ view' = { view with maintenance := none } := by
  unfold maintenanceFinished
  cases view.maintenance <;> simp [eq_comm]

theorem nodeOperatorAdded_eq_ok {idx : Idx} {operator : SmartContract.NodeOperator} :
    view.nodeOperatorAdded cfg idx operator = .ok view' ↔
      view.nodeOperators.getIdx operator.id = none ∧ view.nodeOperators.getByIdx idx = none ∧
      ∃ operators, view.nodeOperators.set idx (some (.fromSc cfg operator)) = some operators ∧
        view' = { view with nodeOperators := operators } := by
  unfold nodeOperatorAdded NodeOperators.contains NodeOperators.containsIdx
  cases view.nodeOperators.getIdx operator.id with
  | some idx' => simp
  | none =>
    cases view.nodeOperators.getByIdx idx with
    | some operator' => simp
    | none => simp [setSlot_eq_ok]

theorem nodeOperatorUpdated_eq_ok {operator : SmartContract.NodeOperator} :
    view.nodeOperatorUpdated cfg operator = .ok view' ↔ ∃ idx operators,
      view.nodeOperators.getIdx operator.id = some idx ∧
      view.nodeOperators.set idx (some (.fromSc cfg operator)) = some operators ∧
      view' = { view with nodeOperators := operators } := by
  unfold nodeOperatorUpdated
  simp only [bind_eq_ok, requireIdx_eq_ok, setSlot_eq_ok, exists_and_left]

theorem nodeOperatorRemoved_eq_ok {id : Address} :
    view.nodeOperatorRemoved id = .ok view' ↔ ∃ idx operators,
      view.nodeOperators.getIdx id = some idx ∧ view.nodeOperators.set idx none = some operators ∧
      view' = { view with nodeOperators := operators } := by
  unfold nodeOperatorRemoved
  simp only [bind_eq_ok, requireIdx_eq_ok, setSlot_eq_ok, exists_and_left]

theorem settingsUpdated_eq_ok {settings : SmartContract.Settings} :
    view.settingsUpdated cfg settings = .ok view' ↔ ∃ decoded,
      cfg.settings settings = .ok decoded ∧ view' = { view with settings := decoded } := by
  unfold settingsUpdated
  simp only [bind_eq_ok, mapError_eq_ok, Except.ok.injEq]
  exact exists_congr fun _ => and_congr_right fun _ => eq_comm

/-- No event puts an operator into a second slot. -/
theorem consistent_change {event : SmartContract.Event} (hcons : view.nodeOperators.Consistent)
    (h : view.change cfg event = .ok view') :
    view'.nodeOperators.Consistent := by
  cases event with
  | migrationStarted =>
    obtain ⟨_, _, _, _, _, _, _, rfl⟩ := migrationStarted_eq_ok.mp h
    exact hcons
  | migrationDataPullCompleted =>
    obtain ⟨_, _, _, _, _, rfl⟩ := migrationDataPullCompleted_eq_ok.mp h
    exact hcons
  | migrationCompleted =>
    obtain ⟨_, _, _, _, _, _, _, rfl⟩ := migrationCompleted_eq_ok.mp h
    exact hcons
  | migrationAborted =>
    obtain ⟨_, _, _, rfl⟩ := migrationAborted_eq_ok.mp h
    exact hcons
  | maintenanceStarted =>
    obtain ⟨_, _, rfl⟩ := maintenanceStarted_eq_ok.mp h
    exact hcons
  | maintenanceFinished =>
    obtain ⟨_, rfl⟩ := maintenanceFinished_eq_ok.mp h
    exact hcons
  | nodeOperatorAdded =>
    obtain ⟨hnew, _, operators, hset, rfl⟩ := nodeOperatorAdded_eq_ok.mp h
    refine hcons.set hset fun operator hop j hj => ?_
    cases hop
    rw [NodeOperator.fromSc, hnew] at hj
    cases hj
  | nodeOperatorUpdated =>
    obtain ⟨idx, operators, hget, hset, rfl⟩ := nodeOperatorUpdated_eq_ok.mp h
    refine hcons.set hset fun operator hop j hj => ?_
    cases hop
    rw [NodeOperator.fromSc, hget] at hj
    exact (Option.some.inj hj).symm
  | nodeOperatorRemoved =>
    obtain ⟨idx, operators, _, hset, rfl⟩ := nodeOperatorRemoved_eq_ok.mp h
    exact hcons.set hset fun operator hop => by cases hop
  | settingsUpdated =>
    obtain ⟨_, _, rfl⟩ := settingsUpdated_eq_ok.mp h
    exact hcons

/-- No event changes the owner, or more than one slot. -/
theorem frame_change {event : SmartContract.Event} (h : view.change cfg event = .ok view') :
    view'.owner = view.owner ∧ (view'.nodeOperators = view.nodeOperators ∨
      ∃ idx slot, view.nodeOperators.set idx slot = some view'.nodeOperators) := by
  cases event with
  | migrationStarted =>
    obtain ⟨_, _, _, _, _, _, _, rfl⟩ := migrationStarted_eq_ok.mp h
    exact ⟨rfl, .inl rfl⟩
  | migrationDataPullCompleted =>
    obtain ⟨_, _, _, _, _, rfl⟩ := migrationDataPullCompleted_eq_ok.mp h
    exact ⟨rfl, .inl rfl⟩
  | migrationCompleted =>
    obtain ⟨_, _, _, _, _, _, _, rfl⟩ := migrationCompleted_eq_ok.mp h
    exact ⟨rfl, .inl rfl⟩
  | migrationAborted =>
    obtain ⟨_, _, _, rfl⟩ := migrationAborted_eq_ok.mp h
    exact ⟨rfl, .inl rfl⟩
  | maintenanceStarted =>
    obtain ⟨_, _, rfl⟩ := maintenanceStarted_eq_ok.mp h
    exact ⟨rfl, .inl rfl⟩
  | maintenanceFinished =>
    obtain ⟨_, rfl⟩ := maintenanceFinished_eq_ok.mp h
    exact ⟨rfl, .inl rfl⟩
  | nodeOperatorAdded =>
    obtain ⟨_, _, _, hset, rfl⟩ := nodeOperatorAdded_eq_ok.mp h
    exact ⟨rfl, .inr ⟨_, _, hset⟩⟩
  | nodeOperatorUpdated =>
    obtain ⟨_, _, _, hset, rfl⟩ := nodeOperatorUpdated_eq_ok.mp h
    exact ⟨rfl, .inr ⟨_, _, hset⟩⟩
  | nodeOperatorRemoved =>
    obtain ⟨_, _, _, hset, rfl⟩ := nodeOperatorRemoved_eq_ok.mp h
    exact ⟨rfl, .inr ⟨_, _, hset⟩⟩
  | settingsUpdated =>
    obtain ⟨_, _, rfl⟩ := settingsUpdated_eq_ok.mp h
    exact ⟨rfl, .inl rfl⟩

theorem applyEvent_eq_ok {event : SmartContract.Event} :
    view.applyEvent cfg event = .ok view' ↔ event.clusterVersion = view.clusterVersion + 1 ∧
      ∃ changed, view.change cfg event = .ok changed ∧
        view' = { changed with clusterVersion := event.clusterVersion } := by
  unfold applyEvent
  split_ifs with h
  · exact iff_of_false (by simp) fun h' => absurd h'.1 h
  · rw [bind_eq_ok]
    simp only [Except.ok.injEq]
    rw [and_iff_right (not_not.mp h)]
    exact exists_congr fun _ => and_congr_right fun _ => eq_comm

/-! ## Panics -/

theorem requireNoMigration_ne_panic : view.requireNoMigration ≠ .error .panic := by
  unfold requireNoMigration
  split <;> simp

theorem requireNoMaintenance_ne_panic : view.requireNoMaintenance ≠ .error .panic := by
  unfold requireNoMaintenance
  split <;> simp

theorem requireMigration_ne_panic : view.requireMigration ≠ .error .panic := by
  unfold requireMigration
  split <;> simp

theorem requireId_ne_panic {id : Nat} : view.requireId id ≠ .error .panic := by
  unfold requireId
  split <;> simp

theorem requirePulling_ne_panic {idx : Idx} : view.requirePulling idx ≠ .error .panic := by
  unfold requirePulling
  split <;> simp

theorem requirePullingCount_ne_panic {expected : Nat} :
    view.requirePullingCount expected ≠ .error .panic := by
  unfold requirePullingCount
  split <;> simp

theorem requireIdx_ne_panic {id : Address} : view.requireIdx id ≠ .error .panic := by
  unfold requireIdx
  split <;> simp

theorem parseTimestamp_ne_panic {time : Nat} :
    (Migration.parseTimestamp time).mapError Error.invalidMigration ≠ .error .panic :=
  mapError_ne_error fun _ h => by cases h

theorem setSlot_ne_panic {idx : Idx} (h : idx.val ≤ view.nodeOperators.slots.length)
    (slot : Option (NodeOperator D)) : view.setSlot idx slot ≠ .error .panic := by
  obtain ⟨operators, hset⟩ := NodeOperators.exists_set h slot
  rw [setSlot, hset]
  exact fun h => by cases h

/-- An operator found by its id has a slot. -/
theorem setSlot_of_getIdx (hcons : view.nodeOperators.Consistent) {id : Address} {idx : Idx}
    (h : view.requireIdx id = .ok idx) (slot : Option (NodeOperator D)) :
    view.setSlot idx slot ≠ .error .panic := by
  refine setSlot_ne_panic ?_ slot
  obtain ⟨operator, hoperator, _⟩ := (hcons id idx).mp (requireIdx_eq_ok.mp h)
  rw [NodeOperators.getByIdx, Option.join_eq_some_iff] at hoperator
  exact Nat.le_of_lt (List.getElem?_eq_some_iff.mp hoperator).1

theorem migrationStarted_ne_panic {migrationId time : Nat} {newKeyspace : SmartContract.Keyspace} :
    view.migrationStarted migrationId newKeyspace time ≠ .error .panic := by
  refine bind_ne_error requireNoMigration_ne_panic fun _ _ => ?_
  refine bind_ne_error requireNoMaintenance_ne_panic fun _ _ => ?_
  refine bind_ne_error (mapError_ne_error fun _ h => by cases h) fun keyspace _ => ?_
  split_ifs
  · exact fun h => by cases h
  · exact bind_ne_error parseTimestamp_ne_panic fun _ _ h => by cases h
  · exact fun h => by cases h

theorem migrationCompleted_ne_panic {migrationId : Nat} {operatorId : Address} :
    view.migrationCompleted migrationId operatorId ≠ .error .panic := by
  refine bind_ne_error requireIdx_ne_panic fun _ _ => ?_
  refine bind_ne_error requireMigration_ne_panic fun _ hprogress => ?_
  refine bind_ne_error requireId_ne_panic fun _ _ => ?_
  refine bind_ne_error requirePulling_ne_panic fun _ _ => ?_
  refine bind_ne_error requirePullingCount_ne_panic fun _ _ => ?_
  obtain ⟨keyspace, hkeyspace⟩ := isInProgress_iff.mp (requireMigration_eq_ok.mp hprogress)
  rw [hkeyspace]
  exact fun h => by cases h

/-- The only event that can index past the end of the slots is an added operator. -/
theorem change_eq_panic (hcons : view.nodeOperators.Consistent) {event : SmartContract.Event}
    (h : view.change cfg event = .error .panic) : ∃ idx operator version,
      event = .nodeOperatorAdded idx operator version ∧
      view.nodeOperators.slots.length < idx.val := by
  cases event with
  | migrationStarted => exact absurd h migrationStarted_ne_panic
  | migrationDataPullCompleted =>
    refine absurd h (bind_ne_error requireIdx_ne_panic fun _ _ => ?_)
    refine bind_ne_error requireMigration_ne_panic fun _ _ => ?_
    refine bind_ne_error requireId_ne_panic fun _ _ => ?_
    exact bind_ne_error requirePulling_ne_panic fun _ _ h => by cases h
  | migrationCompleted => exact absurd h migrationCompleted_ne_panic
  | migrationAborted =>
    refine absurd h (bind_ne_error requireMigration_ne_panic fun _ _ => ?_)
    refine bind_ne_error requireId_ne_panic fun _ _ => ?_
    exact bind_ne_error parseTimestamp_ne_panic fun _ _ h => by cases h
  | maintenanceStarted =>
    refine absurd h (bind_ne_error requireNoMigration_ne_panic fun _ _ => ?_)
    exact bind_ne_error requireNoMaintenance_ne_panic fun _ _ h => by cases h
  | maintenanceFinished =>
    rw [change, maintenanceFinished] at h
    split at h <;> cases h
  | nodeOperatorAdded idx operator version =>
    refine ⟨idx, operator, version, rfl, ?_⟩
    by_contra hle
    rw [change, nodeOperatorAdded] at h
    split_ifs at h
    · cases h
    · cases h
    · exact setSlot_ne_panic (Nat.le_of_not_lt hle) _ h
  | nodeOperatorUpdated =>
    exact absurd h (bind_ne_error requireIdx_ne_panic fun _ hidx => setSlot_of_getIdx hcons hidx _)
  | nodeOperatorRemoved =>
    exact absurd h (bind_ne_error requireIdx_ne_panic fun _ hidx => setSlot_of_getIdx hcons hidx _)
  | settingsUpdated =>
    exact absurd h (bind_ne_error (mapError_ne_error fun _ h => by cases h) fun _ _ h => by cases h)

theorem applyEvent_eq_panic {event : SmartContract.Event}
    (h : view.applyEvent cfg event = .error .panic) :
    event.clusterVersion = view.clusterVersion + 1 ∧ view.change cfg event = .error .panic := by
  unfold applyEvent at h
  split_ifs at h with hversion
  · cases h
  · refine ⟨not_not.mp hversion, ?_⟩
    by_contra hne
    exact bind_ne_error hne (fun _ _ h => by cases h) h

end View
end Cluster
end Wcn
