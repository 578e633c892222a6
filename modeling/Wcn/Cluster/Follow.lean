import Wcn.Cluster.Tracking

/-!
# Wcn.Cluster.Follow

Whether a node can follow the chain: when the view of a contract state accepts the event of the
next call.

* `Acceptable cfg env s call` — the condition, on the call and the state before it. The contract
  checks most of what the view checks; what is left is listed here.
* `accepts_iff` — the view accepts the event exactly then.
* `follows_iff` — for every reachable state, including that its view can be built.
* `snapshot_tracks_run` — in a run of such calls, a node that receives every event tracks the
  contract to its end.
-/

namespace Wcn
namespace Cluster

open Lib
open Contract (Address Bytes Env Call Transition Sound transaction sixOperators after
  initial_sixOperators)
open Contract.Bitmask

variable {S D : Type} {cfg : Config S D} {policy : Contract.Policy}

/-- What is left for the view to check of a call that succeeded. -/
def Acceptable (cfg : Config S D) (env : Env) (s : Contract.State) : Call → Prop
  | .startMigration newKeyspace =>
    newKeyspace.replicationStrategy = 0 ∧ env.timestamp ≤ Migration.maxTimestamp
  | .abortMigration _ => env.timestamp ≤ Migration.maxTimestamp
  | .updateNodeOperatorData operatorAddress _ => operatorAddress ≠ 0
  | .removeNodeOperator operatorAddr => operatorAddr ≠ 0
  | .setMaintenance true => s.migration.pullingOperatorBitmask = 0
  | .setMaintenance false => s.maintenanceSlot ≠ 0
  | .updateSettings newSettings => ∃ settings, cfg.settings (.ofContract newSettings) = .ok settings
  | _ => True

section Accepts

variable {s s' : Contract.State} {env : Env} {call : Call} {event : Contract.Event}
  {e : SmartContract.Event} {view : View S D}

/-- The only pulling operator is the one that leaves none when it is done. -/
theorem countSet_eq_one_iff {mask : BitVec 256} {i : Idx} (hi : i ∈ ones mask) :
    countSet mask = 1 ↔ unset mask i = 0 := by
  rw [← ones_eq_empty_iff, ones_unset, countSet]
  constructor
  · intro h
    obtain ⟨j, hj⟩ := Finset.card_eq_one.mp h
    rw [hj, Finset.mem_singleton] at hi
    rw [hj, hi, Finset.erase_singleton]
  · intro h
    rw [← Finset.insert_erase hi, h]
    rfl

/-- The contract and the view reject the same keyspaces, up to strategies. -/
theorem accepts_migrationStarted (hs : Sound policy s)
    (hprimary : s.primaryKeyspace.replicationStrategy = 0) (hv : Tracks cfg s view)
    {newKeyspace : Contract.Keyspace} {migrationId time : Nat} (hmaintenance : s.maintenanceSlot = 0)
    (hidle : s.migration.pullingOperatorBitmask = 0)
    (hcount : s.settings.minOperators ≤ countSet newKeyspace.operatorBitmask)
    (hsub : ones newKeyspace.operatorBitmask ⊆ ones s.operatorBitmask)
    (hdiff : s.keyspaces s.keyspaceIdx ≠ newKeyspace) :
    (∃ changed, view.migrationStarted migrationId (.ofContract newKeyspace) time = .ok changed) ↔
      newKeyspace.replicationStrategy = 0 ∧ time ≤ Migration.maxTimestamp := by
  simp only [View.migrationStarted_eq_ok]
  constructor
  · rintro ⟨_, _, _, hstrategy, _, _, _, htime, _⟩
    exact ⟨hstrategy, htime⟩
  · rintro ⟨hstrategy, htime⟩
    rw [policy.minOperators _ hs.settings] at hcount
    refine ⟨_, ?_, hv.maintenance_eq_none.mpr hmaintenance, hstrategy, hcount,
      validate_of_subset hv.shows.operators hsub, ?_, htime, rfl⟩
    · exact Bool.eq_false_iff.mpr (hv.isInProgress.not.mpr (not_not.mpr hidle))
    · -- equal operators and the one strategy there is would be the same keyspace
      intro heq
      rw [hv.shows.keyspace, Keyspace.mk.injEq] at heq
      rw [Contract.State.primaryKeyspace_idle hidle] at heq hprimary
      refine hdiff ?_
      rw [show s.keyspaces s.keyspaceIdx = s.targetKeyspace from rfl, Contract.Keyspace.ext_iff]
      exact ⟨ones_injective heq.1, hprimary.trans hstrategy.symm⟩

/-- The first free slot of the contract is free in the view, and there is room for it. -/
theorem accepts_nodeOperatorAdded (hs : Sound policy s) (hv : Tracks cfg s view)
    {operator : Contract.NodeOperator} (hfull : s.operatorBitmask ≠ BitVec.allOnes 256)
    (hidx : s.operatorSlotIndexes operator.addr = 0)
    (hslot : (s.operatorSlots 0).addr ≠ operator.addr) :
    ∃ changed, view.nodeOperatorAdded cfg (findFirstUnset s.operatorBitmask)
      ⟨operator.addr, operator.data⟩ = .ok changed := by
  simp only [View.nodeOperatorAdded_eq_ok]
  have hroom := hv.findFirstUnset_le_length hfull (ne_zero_of_countSet (five_le_countSet hs))
  obtain ⟨operators, hset⟩ :=
    NodeOperators.exists_set hroom (some (.fromSc cfg ⟨operator.addr, operator.data⟩))
  refine ⟨_, hv.getIdx_eq_none.mpr fun i hi heq => ?_, ?_, operators, hset, rfl⟩
  · have hi0 : i = 0 := by rw [← hs.registry.indexed i hi, heq, hidx]
    exact hslot (hi0 ▸ heq)
  · rw [hv.shows.operators, operatorAt, if_neg (findFirstUnset_notMem hfull).1]

/-- The view can change the slot of whatever the contract takes for an operator, except for the
zero address. -/
theorem exists_set_iff (hs : Contract.Registry s) (hv : Tracks cfg s view) {a : Address}
    (hop : s.IsOperator a) (slot : Option (NodeOperator D)) :
    (∃ changed idx operators, view.nodeOperators.getIdx a = some idx ∧
      view.nodeOperators.set idx slot = some operators ∧
      changed = { view with nodeOperators := operators }) ↔ a ≠ 0 := by
  constructor
  · rintro ⟨_, idx, _, hget, _⟩ rfl
    rw [hv.getIdx_zero hs] at hget
    cases hget
  · intro ha
    have hlt := hv.lt_length (hs.mem_of_isOperator ha hop)
    obtain ⟨operators, hset⟩ := NodeOperators.exists_set (Nat.le_of_lt hlt) slot
    exact ⟨_, _, operators, hv.getIdx_of_isOperator hs ha hop, hset, rfl⟩

theorem accepts_iff (hs : Sound policy s) (hprimary : s.primaryKeyspace.replicationStrategy = 0)
    (hv : Tracks cfg s view) (h : Transition env s call s' event)
    (he : SmartContract.Event.tryFrom env.timestamp event = some e) :
    (∃ changed, view.change cfg e = .ok changed) ↔ Acceptable cfg env s call := by
  cases h with
  | startMigration _ hmaintenance hidle hcount hsub hdiff _ _ _ =>
    cases he
    exact accepts_migrationStarted hs hprimary hv hmaintenance hidle hcount hsub hdiff
  | @completePull slotIdx hidx hop hmem hrest _ =>
    cases he
    simp only [View.change, View.migrationDataPullCompleted_eq_ok, Acceptable, iff_true]
    have hne := ne_zero_of_mem_ones hmem
    exact ⟨_, _, hv.getIdx_of_isOperator hs.registry env.sender_ne_zero hop,
      hv.isInProgress.mpr hne, by rw [hv.shows.migration], hv.isPulling.mpr (hidx ▸ hmem), rfl⟩
  | @completeMigration slotIdx hidx hop hmem hrest _ =>
    cases he
    simp only [View.change, View.migrationCompleted_eq_ok, Acceptable, iff_true]
    have hne := ne_zero_of_mem_ones hmem
    refine ⟨_, _, _, hv.getIdx_of_isOperator hs.registry env.sender_ne_zero hop,
      hv.keyspace_eq_some hne, by rw [hv.shows.migration], hv.isPulling.mpr (hidx ▸ hmem), ?_, rfl⟩
    rw [hv.pullingCount]
    exact (countSet_eq_one_iff hmem).mpr hrest
  | abortMigration _ hne _ _ =>
    cases he
    simp only [View.change, View.migrationAborted_eq_ok, Acceptable]
    constructor
    · rintro ⟨_, _, _, htime, _⟩
      exact htime
    · intro htime
      exact ⟨_, hv.isInProgress.mpr hne, by rw [hv.shows.migration], htime, rfl⟩
  | addNodeOperator _ hfull _ hidx hslot _ _ =>
    cases he
    exact iff_of_true (accepts_nodeOperatorAdded hs hv hfull hidx hslot) trivial
  | updateNodeOperatorData _ _ hidx hop _ =>
    cases he
    subst hidx
    simp only [View.change, View.nodeOperatorUpdated_eq_ok, Acceptable]
    exact exists_set_iff hs.registry hv hop _
  | removeNodeOperator _ hidx hop _ _ _ _ =>
    cases he
    subst hidx
    simp only [View.change, View.nodeOperatorRemoved_eq_ok, Acceptable]
    exact exists_set_iff hs.registry hv hop _
  | startMaintenance hfree _ _ =>
    cases he
    simp only [View.change, View.maintenanceStarted_eq_ok, Acceptable]
    constructor
    · rintro ⟨_, hprogress, _⟩
      by_contra hne
      rw [hv.isInProgress.mpr hne] at hprogress
      cases hprogress
    · intro hidle
      exact ⟨_, Bool.eq_false_iff.mpr (hv.isInProgress.not.mpr (not_not.mpr hidle)),
        hv.maintenance_eq_none.mpr hfree, rfl⟩
  | finishMaintenance _ _ _ =>
    cases he
    simp only [View.change, View.maintenanceFinished_eq_ok, Acceptable, ne_eq,
      hv.maintenance_eq_none]
    constructor
    · rintro ⟨_, htaken, _⟩
      exact htaken
    · intro htaken
      exact ⟨_, htaken, rfl⟩
  | updateSettings _ _ _ =>
    cases he
    simp only [View.change, View.settingsUpdated_eq_ok, Acceptable]
    constructor
    · rintro ⟨_, settings, hdecoded, _⟩
      exact ⟨settings, hdecoded⟩
    · rintro ⟨settings, hdecoded⟩
      exact ⟨_, settings, hdecoded, rfl⟩
  | transferOwnership _ => cases he
  | acceptOwnership _ => cases he
  | renounceOwnership _ => cases he

theorem exists_applyEvent_iff (hv : Tracks cfg s view) (h : Transition env s call s' event)
    (he : SmartContract.Event.tryFrom env.timestamp event = some e) :
    (∃ view', view.applyEvent cfg e = .ok view') ↔ ∃ changed, view.change cfg e = .ok changed := by
  simp only [View.applyEvent_eq_ok, hv.clusterVersion, (clusterVersion_tryFrom h he).1, true_and]
  constructor
  · rintro ⟨_, changed, hchange, _⟩
    exact ⟨changed, hchange⟩
  · rintro ⟨changed, hchange⟩
    exact ⟨_, changed, hchange, rfl⟩

end Accepts

/-! ## Following the chain -/

/-- Settings that can be decoded and ask for five operators, and migrations with the one strategy
there is. -/
def followPolicy (cfg : Config S D) : Contract.Policy where
  settings settings :=
    settings.minOperators = 5 ∧ ∃ decoded, cfg.settings (.ofContract settings) = .ok decoded
  keyspace keyspace := keyspace.replicationStrategy = 0
  minOperators _ h := h.1
  initial _ := rfl

/-- The times the state of a migration is read from can be represented. -/
def TimesRepresentable (s : Contract.State) : Prop :=
  s.migration.startedAt ≤ Migration.maxTimestamp ∧
    (s.migration.pullingOperatorBitmask = 0 → s.migration.startedAt ≤ s.migration.abortedAt →
      s.migration.abortedAt ≤ Migration.maxTimestamp)

/-- The guards the contract lacks. -/
def Guarded (env : Env) (s : Contract.State) : Call → Prop
  | .startMigration _ | .abortMigration _ => env.timestamp ≤ Migration.maxTimestamp
  | .updateNodeOperatorData operator _ | .removeNodeOperator operator => operator ≠ 0
  | .setMaintenance true => s.migration.pullingOperatorBitmask = 0
  | .setMaintenance false => s.maintenanceSlot ≠ 0
  | _ => True

theorem readable_iff {s : Contract.State} (hs : Sound (followPolicy cfg) s) :
    Readable cfg s ↔ TimesRepresentable s :=
  ⟨fun h => ⟨h.startedAt, h.abortedAt⟩, fun h => ⟨hs.settings.2, hs.keyspaces.primary.1,
    fun hne => (hs.keyspaces.target hne).1, h.1, h.2⟩⟩

theorem acceptable_iff {env : Env} {s : Contract.State} {call : Call}
    (hallowed : (followPolicy cfg).Allows call) :
    Acceptable cfg env s call ↔ Guarded env s call := by
  cases call with
  | startMigration newKeyspace => exact and_iff_right hallowed
  | updateSettings newSettings => exact iff_of_true hallowed.2 trivial
  | setMaintenance active => cases active <;> rfl
  | _ => rfl

/-- The view of a reachable state can be built and accepts the event of the next call, exactly when
the recorded times are representable and the call passes the guards the contract lacks. -/
theorem follows_iff (cfg : Config S D) {s s' : Contract.State} {env : Env} {call : Call}
    {event : Contract.Event} {e : SmartContract.Event}
    (hs : Contract.Reachable (followPolicy cfg) s) (hallowed : (followPolicy cfg).Allows call)
    (h : Contract.exec env call s = .ok (s', event))
    (he : SmartContract.Event.tryFrom env.timestamp event = some e) :
    (∃ view, snapshot cfg s = .ok view ∧ ∃ view', view.applyEvent cfg e = .ok view') ↔
      TimesRepresentable s ∧ Guarded env s call := by
  have hsound := hs.sound
  rw [Contract.exec_iff] at h
  rw [← readable_iff hsound, ← acceptable_iff hallowed]
  constructor
  · rintro ⟨view, hview, haccepts⟩
    have hread := (exists_snapshot_iff hsound).mp ⟨view, hview⟩
    have hv := (snapshot_mirrors hsound.registry hsound.membership hview).tracks
    rw [exists_applyEvent_iff hv h he, accepts_iff hsound hread.primary hv h he] at haccepts
    exact ⟨hread, haccepts⟩
  · rintro ⟨hread, haccepts⟩
    obtain ⟨view, hview⟩ := (exists_snapshot_iff hsound).mpr hread
    have hv := (snapshot_mirrors hsound.registry hsound.membership hview).tracks
    rw [← accepts_iff hsound hread.primary hv h he, ← exists_applyEvent_iff hv h he] at haccepts
    exact ⟨view, hview, haccepts⟩

/-! ## Whole runs -/

/-- A run of calls that pass the guards the contract lacks, and its events. -/
inductive GuardedRun (cfg : Config S D) :
    Contract.State → List SmartContract.Event → Contract.State → Prop where
  | refl {s : Contract.State} : GuardedRun cfg s [] s
  | event {s s' s'' : Contract.State} {env : Env} {call : Call} {event : Contract.Event}
      {e : SmartContract.Event} {events : List SmartContract.Event} :
      (followPolicy cfg).Allows call → Contract.exec env call s = .ok (s', event) →
      SmartContract.Event.tryFrom env.timestamp event = some e → Guarded env s call →
      GuardedRun cfg s' events s'' → GuardedRun cfg s (e :: events) s''
  | silent {s s' s'' : Contract.State} {env : Env} {call : Call} {event : Contract.Event}
      {events : List SmartContract.Event} :
      (followPolicy cfg).Allows call → Contract.exec env call s = .ok (s', event) →
      SmartContract.Event.tryFrom env.timestamp event = none →
      GuardedRun cfg s' events s'' → GuardedRun cfg s events s''

/-- A view that tracks the contract accepts all events of such a run, and tracks it at the end. -/
theorem tracks_run {s s' : Contract.State} {events : List SmartContract.Event} {view : View S D}
    (h : GuardedRun cfg s events s') (hs : Sound (followPolicy cfg) s) (hv : Tracks cfg s view) :
    ∃ view', events.foldlM (View.applyEvent cfg) view = .ok view' ∧ Tracks cfg s' view' := by
  induction h generalizing view with
  | refl => exact ⟨view, rfl, hv⟩
  | event hallowed hexec he hguarded _ ih =>
    have hs' := Contract.sound_step _ _ hs ⟨_, _, _, hallowed, hexec⟩
    rw [Contract.exec_iff] at hexec
    have haccepts := (acceptable_iff hallowed).mpr hguarded
    rw [← accepts_iff hs hs.keyspaces.primary.1 hv hexec he,
      ← exists_applyEvent_iff hv hexec he] at haccepts
    obtain ⟨view₁, haccept⟩ := haccepts
    obtain ⟨view', hreplay, hv'⟩ := ih hs' (tracks_applyEvent hs.registry hv hexec he haccept)
    refine ⟨view', ?_, hv'⟩
    rw [List.foldlM_cons, bind_eq_ok]
    exact ⟨view₁, haccept, hreplay⟩
  | silent hallowed hexec he _ ih =>
    have hs' := Contract.sound_step _ _ hs ⟨_, _, _, hallowed, hexec⟩
    rw [Contract.exec_iff] at hexec
    exact ih hs' (tracks_of_tryFrom_eq_none hv hexec he)

/-- So does a node that reads any reachable state and then receives every event. -/
theorem snapshot_tracks_run {s s' : Contract.State} {events : List SmartContract.Event}
    {view : View S D} (hs : Contract.Reachable (followPolicy cfg) s)
    (hview : snapshot cfg s = .ok view) (h : GuardedRun cfg s events s') :
    ∃ view', events.foldlM (View.applyEvent cfg) view = .ok view' ∧ Tracks cfg s' view' :=
  tracks_run h hs.sound (snapshot_mirrors hs.sound.registry hs.sound.membership hview).tracks

/-! ## A cluster of six operators -/

/-- Accepts all settings and operator data. -/
def acceptAll : Config Unit Unit := ⟨fun _ => .ok (), fun _ => some ()⟩

/-- Maintenance can be started while there is no migration. -/
theorem follows_maintenance :
    ∃ view, snapshot acceptAll sixOperators = .ok view ∧
      ∃ view', view.applyEvent acceptAll (.maintenanceStarted 1 2) = .ok view' := by
  have hreach : Contract.Reachable (followPolicy acceptAll) sixOperators :=
    ⟨_, _, initial_sixOperators ⟨rfl, (), rfl⟩, .refl⟩
  have hallowed : (followPolicy acceptAll).Allows (.setMaintenance true) := trivial
  have hexec : Contract.exec (transaction 0 11) (.setMaintenance true) sixOperators =
      .ok (after (transaction 0 11) (.setMaintenance true) sixOperators) :=
    eq_ok_result (by decide +kernel) _
  exact (follows_iff acceptAll hreach hallowed hexec (by decide +kernel)).mpr
    ⟨⟨by decide +kernel, by decide +kernel⟩,
      (by decide +kernel : sixOperators.migration.pullingOperatorBitmask = 0)⟩

/-- The contract lets maintenance start during a migration; the view does not. -/
theorem not_follows_maintenance :
    ∃ s s' view, Contract.Reachable (followPolicy acceptAll) s ∧
      Contract.exec (transaction 0 12) (.setMaintenance true) s =
        .ok (s', .maintenanceToggled 1 true 3) ∧
      SmartContract.Event.tryFrom 12 (.maintenanceToggled 1 true 3) = some (.maintenanceStarted 1 3) ∧
      snapshot acceptAll s = .ok view ∧
      view.applyEvent acceptAll (.maintenanceStarted 1 3) = .error (.migrationInProgress 1) := by
  let migrating := (after (transaction 99 11) (.startMigration ⟨fill 5, 0⟩) sixOperators).1
  have hallowed : (followPolicy acceptAll).Allows (.startMigration ⟨fill 5, 0⟩) := rfl
  have hstart : Contract.exec (transaction 99 11) (.startMigration ⟨fill 5, 0⟩) sixOperators =
      .ok (after (transaction 99 11) (.startMigration ⟨fill 5, 0⟩) sixOperators) :=
    eq_ok_result (by decide +kernel) _
  have hreach : Contract.Reachable (followPolicy acceptAll) migrating :=
    ⟨_, _, initial_sixOperators ⟨rfl, (), rfl⟩, .single ⟨_, _, _, hallowed, hstart⟩⟩
  have hexec : Contract.exec (transaction 0 12) (.setMaintenance true) migrating =
      .ok (after (transaction 0 12) (.setMaintenance true) migrating) :=
    eq_ok_result (by decide +kernel) _
  have hevent : after (transaction 0 12) (.setMaintenance true) migrating =
      (_, .maintenanceToggled 1 true 3) := Prod.ext rfl (by decide +kernel)
  have hreject : failureAfter (snapshot acceptAll migrating)
      (View.applyEvent acceptAll · (.maintenanceStarted 1 3)) = some (.migrationInProgress 1) := by
    decide +kernel
  obtain ⟨view, hview, hrejected⟩ := exists_of_failureAfter hreject
  exact ⟨migrating, _, view, hreach, hexec.trans (congrArg _ hevent), rfl, hview, hrejected⟩

end Cluster
end Wcn
