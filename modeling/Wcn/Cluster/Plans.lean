import Wcn.Cluster.Stored

/-!
# Wcn.Cluster.Plans

Starting a migration by a plan.

* `newKeyspace` — what `Cluster::start_migration` checks of a plan against the node's view, and the
  keyspace it makes of it. `startMigration` is the keyspace it sends to the contract.
* `newKeyspace_ok` — the operators of that keyspace.
* `plan_executable` — three independent checks agree: a plan that passes the first is accepted by
  the contract, and its event by every view of the same state.
-/

namespace Wcn
namespace Cluster

open Lib
open Contract (Address Env Call Transition transaction sixOperators after)
open Contract.Bitmask

variable {S D : Type}

/-- The hash sets of a plan, in the order they are iterated. -/
structure Plan where
  remove : List Address
  add : List Address
  replicationStrategy : ReplicationStrategy
  nodup_remove : remove.Nodup
  nodup_add : add.Nodup

inductive StartMigrationError where
  | noSigner
  | notOwner
  /-- `MigrationInProgress`, `MaintenanceInProgress`, `UnknownOperator` or `SameKeyspace`. -/
  | refused (e : View.Error)
  | notInKeyspace (id : Address)
  | alreadyInKeyspace (id : Address)
  | keyspaceCreation (e : Keyspace.TryFromSmartContractError)
deriving DecidableEq

/-! ## Conversions -/

/-- `replication_strategy as u8`. -/
def ReplicationStrategy.toNat : ReplicationStrategy → Nat
  | .uniformDistribution => 0

/-- The loop over the operators of a keyspace, here from the first slot to the last. -/
def hashsetToBitmask (operators : Finset Idx) : BitVec 256 :=
  ((List.finRange 256).filter (· ∈ operators)).foldl Contract.Bitmask.set 0

def Keyspace.intoContract (keyspace : Keyspace) : Contract.Keyspace :=
  ⟨hashsetToBitmask keyspace.operators, keyspace.replicationStrategy.toNat⟩

@[simp] theorem ones_hashsetToBitmask (operators : Finset Idx) :
    ones (hashsetToBitmask operators) = operators := by
  rw [hashsetToBitmask, ones_foldl_set, ones_zero, Finset.empty_union]
  ext idx
  simp

namespace View

/-! ## Checking a plan -/

def removeOperators (view : View S D) :
    List Address → Finset Idx → Except StartMigrationError (Finset Idx)
  | [], newOperators => .ok newOperators
  | id :: ids, newOperators => do
    let idx ← (view.requireIdx id).mapError .refused
    if idx ∉ view.keyspace.operators then
      .error (.notInKeyspace id)
    else
      view.removeOperators ids (newOperators.erase idx)

def addOperators (view : View S D) :
    List Address → Finset Idx → Except StartMigrationError (Finset Idx)
  | [], newOperators => .ok newOperators
  | id :: ids, newOperators => do
    let idx ← (view.requireIdx id).mapError .refused
    if idx ∈ view.keyspace.operators then
      .error (.alreadyInKeyspace id)
    else
      view.addOperators ids (insert idx newOperators)

def newKeyspace (view : View S D) (signer : Option Address) (plan : Plan) :
    Except StartMigrationError Keyspace :=
  match signer with
  | none => .error .noSigner
  | some signer =>
    if signer ≠ view.owner then
      .error .notOwner
    else do
      view.requireNoMigration.mapError .refused
      view.requireNoMaintenance.mapError .refused
      let newOperators ← view.removeOperators plan.remove view.keyspace.operators
      let newOperators ← view.addOperators plan.add newOperators
      let newKeyspace ←
        (Keyspace.new newOperators plan.replicationStrategy).mapError .keyspaceCreation
      if view.keyspace = newKeyspace then
        .error (.refused .sameKeyspace)
      else
        .ok newKeyspace

/-- The argument of the call that `Cluster::start_migration` makes. -/
def startMigration (view : View S D) (signer : Option Address) (plan : Plan) :
    Except StartMigrationError Contract.Keyspace := do
  let newKeyspace ← view.newKeyspace signer plan
  .ok newKeyspace.intoContract

/-- The slots of operators. -/
def slotsOf (view : View S D) (ids : List Address) : Finset Idx :=
  (ids.filterMap view.nodeOperators.getIdx).toFinset

section Plan

variable {view : View S D} {ids : List Address} {newOperators result : Finset Idx}

theorem mem_slotsOf {idx : Idx} :
    idx ∈ view.slotsOf ids ↔ ∃ id ∈ ids, view.nodeOperators.getIdx id = some idx := by
  rw [slotsOf, List.mem_toFinset, List.mem_filterMap]

theorem slotsOf_cons {id : Address} {idx : Idx} (h : view.nodeOperators.getIdx id = some idx) :
    view.slotsOf (id :: ids) = insert idx (view.slotsOf ids) := by
  rw [slotsOf, List.filterMap_cons_some h, List.toFinset_cons]
  rfl

theorem removeOperators_ok (h : view.removeOperators ids newOperators = .ok result) :
    result = newOperators \ view.slotsOf ids ∧
      ∀ id ∈ ids, ∃ idx ∈ view.keyspace.operators, view.nodeOperators.getIdx id = some idx := by
  induction ids generalizing newOperators with
  | nil =>
    cases h
    exact ⟨Finset.sdiff_empty.symm, fun id hid => absurd hid List.not_mem_nil⟩
  | cons id ids ih =>
    obtain ⟨idx, hidx, h⟩ := bind_eq_ok.mp h
    rw [mapError_eq_ok, requireIdx_eq_ok] at hidx
    split_ifs at h with hmem
    obtain ⟨hresult, hknown⟩ := ih h
    refine ⟨?_, List.forall_mem_cons.mpr ⟨⟨idx, hmem, hidx⟩, hknown⟩⟩
    rw [hresult, slotsOf_cons hidx, Finset.sdiff_insert, Finset.erase_sdiff_comm]

theorem addOperators_ok (h : view.addOperators ids newOperators = .ok result) :
    result = newOperators ∪ view.slotsOf ids ∧
      ∀ id ∈ ids, ∃ idx ∉ view.keyspace.operators, view.nodeOperators.getIdx id = some idx := by
  induction ids generalizing newOperators with
  | nil =>
    cases h
    exact ⟨(Finset.union_empty _).symm, fun id hid => absurd hid List.not_mem_nil⟩
  | cons id ids ih =>
    obtain ⟨idx, hidx, h⟩ := bind_eq_ok.mp h
    rw [mapError_eq_ok, requireIdx_eq_ok] at hidx
    split_ifs at h with hmem
    obtain ⟨hresult, hknown⟩ := ih h
    refine ⟨?_, List.forall_mem_cons.mpr ⟨⟨idx, hmem, hidx⟩, hknown⟩⟩
    rw [hresult, slotsOf_cons hidx, Finset.insert_union, Finset.union_insert]

/-- What it takes for a plan to pass. -/
structure Planned (view : View S D) (signer : Option Address) (plan : Plan) (keyspace : Keyspace) :
    Prop where
  signer : signer = some view.owner
  idle : view.migration.isInProgress = false
  free : view.maintenance = none
  removed : ∀ id ∈ plan.remove, ∃ idx ∈ view.keyspace.operators,
    view.nodeOperators.getIdx id = some idx
  added : ∀ id ∈ plan.add, ∃ idx ∉ view.keyspace.operators,
    view.nodeOperators.getIdx id = some idx
  operators : keyspace.operators =
    view.keyspace.operators \ view.slotsOf plan.remove ∪ view.slotsOf plan.add
  count : 5 ≤ keyspace.operators.card
  differs : view.keyspace ≠ keyspace

theorem newKeyspace_ok {signer : Option Address} {plan : Plan} {keyspace : Keyspace}
    (h : view.newKeyspace signer plan = .ok keyspace) : Planned view signer plan keyspace := by
  unfold newKeyspace at h
  cases signer with
  | none => cases h
  | some signer =>
    dsimp only at h
    split_ifs at h with howner
    simp only [bind_eq_ok, mapError_eq_ok, requireNoMigration_eq_ok,
      requireNoMaintenance_eq_ok] at h
    obtain ⟨_, hidle, _, hfree, kept, hremove, newOperators, hadd, created, hcreated, h⟩ := h
    obtain ⟨rfl, hremoved⟩ := removeOperators_ok hremove
    obtain ⟨rfl, hadded⟩ := addOperators_ok hadd
    split_ifs at h with hsame
    cases h
    unfold Keyspace.new at hcreated
    split_ifs at hcreated with hfew
    cases hcreated
    exact ⟨by rw [not_not.mp howner], hidle, hfree, hremoved, hadded, rfl, Nat.le_of_not_lt hfew,
      hsame⟩

theorem Planned.disjoint {signer : Option Address} {plan : Plan} {keyspace : Keyspace}
    (h : Planned view signer plan keyspace) : plan.remove.Disjoint plan.add := by
  intro id hremove hadd
  obtain ⟨idx, hmem, hidx⟩ := h.removed id hremove
  obtain ⟨idx', hnot, hidx'⟩ := h.added id hadd
  cases hidx.symm.trans hidx'
  exact hnot hmem

end Plan

end View

/-! ## Executing a plan -/

section Execute

variable {cfg : Config S D} {s s' : Contract.State} {view : View S D} {signer : Option Address}
  {plan : Plan} {keyspace : Keyspace} {env : Env} {event : Contract.Event}

theorem Keyspace.eq_mk (keyspace : Keyspace) :
    keyspace = ⟨keyspace.operators, .uniformDistribution⟩ := by
  obtain ⟨operators, strategy⟩ := keyspace
  cases strategy
  rfl

/-- A new keyspace has operators of the old one and others that the view knows. -/
theorem View.Planned.subset (h : View.Planned view signer plan keyspace) (hv : Tracks cfg s view)
    (hs : Contract.Membership s) : keyspace.operators ⊆ ones s.operatorBitmask := by
  rw [h.operators, Finset.union_subset_iff]
  constructor
  · refine Finset.sdiff_subset.trans ?_
    rw [hv.shows.keyspace]
    exact hs.primary
  · intro idx hidx
    obtain ⟨id, _, hget⟩ := View.mem_slotsOf.mp hidx
    exact (hv.getIdx_eq_some.mp hget).1

/-- Of a plan that passed, the contract only checks anew how many operators there must be. -/
theorem View.Planned.exec_iff (h : View.Planned view signer plan keyspace) (hv : Tracks cfg s view)
    (hs : Contract.Membership s) (howner : env.sender = s.owner) :
    (∃ s' event, Contract.exec env (.startMigration keyspace.intoContract) s = .ok (s', event)) ↔
      s.settings.minOperators ≤ keyspace.operators.card ∧ s.migration.id + 1 < 2 ^ 64 ∧
        s.keyspaceVersion + 1 < 2 ^ 64 ∧ s.version + 1 < 2 ^ 128 := by
  have hcount : countSet keyspace.intoContract.operatorBitmask = keyspace.operators.card :=
    congrArg Finset.card (ones_hashsetToBitmask _)
  simp only [Contract.exec_iff]
  constructor
  · rintro ⟨s', event, htransition⟩
    cases htransition with
    | startMigration _ _ _ hmin _ _ hid hkeyspace hversion =>
      exact ⟨hcount ▸ hmin, hid, hkeyspace, hversion⟩
  · rintro ⟨hmin, hid, hkeyspace, hversion⟩
    have hpulling : s.migration.pullingOperatorBitmask = 0 := by
      by_contra hne
      have hprogress := hv.isInProgress.mpr hne
      rw [h.idle] at hprogress
      cases hprogress
    refine ⟨_, _, .startMigration howner (hv.maintenance_eq_none.mp h.free) hpulling
      (hcount.symm ▸ hmin) ?_ ?_ hid hkeyspace hversion⟩
    · rw [Keyspace.intoContract, ones_hashsetToBitmask]
      exact h.subset hv hs
    · -- the view shows the current keyspace, so a different one differs for the contract
      intro heq
      refine h.differs ?_
      rw [hv.shows.keyspace, Contract.State.primaryKeyspace_idle hpulling, keyspace.eq_mk,
        show s.targetKeyspace = _ from heq, Keyspace.intoContract, ones_hashsetToBitmask]

/-- Every view of the same state accepts the event, if it can represent the time. -/
theorem View.Planned.applyEvent_iff (h : View.Planned view signer plan keyspace)
    (hv : Tracks cfg s view) (hs : Contract.Membership s) {view' : View S D}
    (hv' : Tracks cfg s view') {migrationId time : Nat} {changed : View S D} :
    view'.applyEvent cfg (.migrationStarted migrationId (.ofContract keyspace.intoContract) time
        (s.version + 1)) = .ok changed ↔
      time ≤ Migration.maxTimestamp ∧ changed = { view' with
        migration := ⟨migrationId, time, .started keyspace keyspace.operators⟩
        keyspaceVersion := view'.keyspaceVersion + 1
        clusterVersion := s.version + 1 } := by
  have hoperators : (SmartContract.Keyspace.ofContract keyspace.intoContract).operators =
      keyspace.operators := ones_hashsetToBitmask _
  have hsame : view'.keyspace = view.keyspace := hv'.shows.keyspace.trans hv.shows.keyspace.symm
  have hidle : view'.migration.isInProgress = false := by
    rw [← h.idle, Bool.eq_iff_iff, hv.isInProgress, hv'.isInProgress]
  have hfree : view'.maintenance = none :=
    hv'.maintenance_eq_none.mpr (hv.maintenance_eq_none.mp h.free)
  have hvalid := validate_of_subset hv'.shows.operators (h.subset hv hs)
  rw [View.applyEvent_eq_ok]
  simp only [View.change, View.migrationStarted_eq_ok, hoperators, ← keyspace.eq_mk]
  constructor
  · rintro ⟨_, _, ⟨_, _, _, _, _, _, htime, rfl⟩, rfl⟩
    exact ⟨htime, rfl⟩
  · rintro ⟨htime, rfl⟩
    exact ⟨by rw [hv'.clusterVersion]; rfl, _, ⟨hidle, hfree, by cases keyspace; rfl, h.count,
      hvalid, hsame ▸ h.differs, htime, rfl⟩, rfl⟩

end Execute

/-- In every reachable state, a plan that passes the checks against a view in sync, signed by the
owner of the contract, has removed and added operators apart and asks for the operators it should.
The call reverts only if the contract requires more operators than the five the client asks for, or a
counter is at its end. The event is accepted by every view in sync, as long as it can represent the
time of the block. -/
theorem plan_executable (cfg : Config S D) {env₀ : Env} {settings : Contract.Settings}
    {operators : List Contract.NodeOperator} {s₀ s : Contract.State}
    (hinit : Contract.initializeCluster env₀ settings operators = .ok s₀)
    (hnonzero : ∀ op ∈ operators, op.addr ≠ 0)
    (hdistinct : (operators.map Contract.NodeOperator.addr).Nodup)
    (hrun : Run (Contract.Calls Contract.anyCall) s₀ s) {view : View S D} (hview : Tracks cfg s view)
    {plan : Plan} {env : Env} {sent : Contract.Keyspace}
    (hplan : view.startMigration (some env.sender) plan = .ok sent) (howner : env.sender = s.owner) :
    plan.remove.Disjoint plan.add ∧
    (∀ id ∈ plan.remove ++ plan.add, (view.nodeOperators.getIdx id).isSome = true) ∧
    ones sent.operatorBitmask = ones s.primaryKeyspace.operatorBitmask \ view.slotsOf plan.remove ∪
      view.slotsOf plan.add ∧
    5 ≤ countSet sent.operatorBitmask ∧
    ((∃ s' event, Contract.exec env (.startMigration sent) s = .ok (s', event)) ↔
      s.settings.minOperators ≤ countSet sent.operatorBitmask ∧ s.migration.id + 1 < 2 ^ 64 ∧
        s.keyspaceVersion + 1 < 2 ^ 64 ∧ s.version + 1 < 2 ^ 128) ∧
    ∀ s' event, Contract.exec env (.startMigration sent) s = .ok (s', event) →
      ∃ e, SmartContract.Event.tryFrom env.timestamp event = some e ∧
        ∀ view' : View S D, Tracks cfg s view' →
          ((∃ changed, view'.applyEvent cfg e = .ok changed) ↔
            env.timestamp ≤ Migration.maxTimestamp) ∧
          ∀ changed, view'.applyEvent cfg e = .ok changed → Tracks cfg s' changed ∧
            changed.migration.state = .started
              ⟨ones sent.operatorBitmask, .uniformDistribution⟩ (ones sent.operatorBitmask) := by
  have hregistry : Contract.Registry s := Contract.registry_calls.run hrun
    (Contract.registry_initialized hnonzero hdistinct hinit)
  have hmembership : Contract.Membership s := Contract.membership_calls.run hrun
    (Contract.membership_initialized hinit)
  obtain ⟨keyspace, hkeyspace, hsent⟩ := bind_eq_ok.mp hplan
  cases hsent
  have hplanned := View.newKeyspace_ok hkeyspace
  have hones : ones keyspace.intoContract.operatorBitmask = keyspace.operators :=
    ones_hashsetToBitmask _
  have hcount : countSet keyspace.intoContract.operatorBitmask = keyspace.operators.card :=
    congrArg Finset.card hones
  refine ⟨hplanned.disjoint, ?_, ?_, hcount ▸ hplanned.count, ?_, ?_⟩
  · intro id hid
    rcases List.mem_append.mp hid with hid | hid
    · obtain ⟨idx, _, hidx⟩ := hplanned.removed id hid
      rw [hidx, Option.isSome_some]
    · obtain ⟨idx, _, hidx⟩ := hplanned.added id hid
      rw [hidx, Option.isSome_some]
  · rw [hones, hplanned.operators, hview.shows.keyspace]
  · rw [hcount]
    exact hplanned.exec_iff hview hmembership howner
  · intro s' event hexec
    rw [Contract.exec_iff] at hexec
    have htransition := hexec
    cases hexec with
    | startMigration _ _ _ _ _ _ _ _ _ =>
      refine ⟨_, rfl, fun view' hview' => ⟨?_, fun changed hchanged => ⟨?_, ?_⟩⟩⟩
      · simp only [hplanned.applyEvent_iff hview hmembership hview', exists_and_left,
          exists_eq, and_true]
      · exact tracks_applyEvent hregistry hview' htransition rfl hchanged
      · obtain ⟨_, rfl⟩ := (hplanned.applyEvent_iff hview hmembership hview').mp hchanged
        rw [hones, ← keyspace.eq_mk]

/-- The six operators' cluster with a seventh operator outside its keyspace. -/
def sevenOperators : Contract.State :=
  (after (transaction 99 11) (.addNodeOperator ⟨7, [0]⟩) sixOperators).1

/-- The seventh operator takes the place of the sixth. -/
def swapPlan : Plan := ⟨[6], [7], .uniformDistribution, by decide, by decide⟩

/-- The sixth operator leaves. -/
def leavePlan : Plan := ⟨[6], [], .uniformDistribution, by decide, by decide⟩

theorem plan_executable_swap :
    ∃ view sent, snapshot acceptAll sevenOperators = .ok view ∧
      view.startMigration (some (transaction 99 12).sender) swapPlan = .ok sent ∧
      swapPlan.remove.Disjoint swapPlan.add ∧
      ∃ s' event, Contract.exec (transaction 99 12) (.startMigration sent) sevenOperators =
        .ok (s', event) := by
  have hsnapshot : ((snapshot acceptAll sevenOperators).toOption.bind fun view =>
      (view.startMigration (some (transaction 99 12).sender) swapPlan).toOption) =
        some ⟨0b1011111, 0⟩ := by
    decide +kernel
  obtain ⟨view, hview, hsent⟩ := Option.bind_eq_some_iff.mp hsnapshot
  rw [toOption_eq_some] at hview hsent
  have hadded : Run (Contract.Calls Contract.anyCall) sixOperators sevenOperators :=
    .single (Contract.calls_after trivial (by decide +kernel))
  have hregistry := Contract.registry_calls.run hadded
    (Contract.registry_initialized (by decide) (by decide) Contract.initialize_sixOperators)
  have hmembership := Contract.membership_calls.run hadded
    (Contract.membership_initialized Contract.initialize_sixOperators)
  obtain ⟨hdisjoint, _, _, _, hexec, _⟩ := plan_executable acceptAll
    Contract.initialize_sixOperators (by decide) (by decide) hadded
    (snapshot_mirrors hregistry hmembership hview).tracks hsent (by decide +kernel)
  exact ⟨view, _, hview, hsent, hdisjoint, hexec.mpr (by decide +kernel)⟩

/-- A transaction one second after the last one that can be represented. -/
def afterLastSecond : Env :=
  { transaction 99 0 with timestamp := Migration.maxTimestamp + 1, timestamp_lt := by decide }

/-- The contract starts a migration then, and no view follows it. Nor is a plan for five operators
executable once the contract has been told to require six. -/
theorem plan_not_executable :
    (∃ view s', snapshot acceptAll sixOperators = .ok view ∧
      view.startMigration (some afterLastSecond.sender) leavePlan = .ok ⟨fill 5, 0⟩ ∧
      Contract.exec afterLastSecond (.startMigration ⟨fill 5, 0⟩) sixOperators =
        .ok (s', .migrationStarted 1 ⟨fill 5, 0⟩ 1 2) ∧
      view.applyEvent acceptAll
          (.migrationStarted 1 (.ofContract ⟨fill 5, 0⟩) afterLastSecond.timestamp 2) =
        .error (.invalidMigration (.invalidTimestamp afterLastSecond.timestamp))) ∧
    ∃ view, snapshot acceptAll
        (after (transaction 99 11) (.updateSettings ⟨100, 6, [0]⟩) sixOperators).1 = .ok view ∧
      view.startMigration (some (transaction 99 12).sender) leavePlan = .ok ⟨fill 5, 0⟩ ∧
      Contract.exec (transaction 99 12) (.startMigration ⟨fill 5, 0⟩)
          (after (transaction 99 11) (.updateSettings ⟨100, 6, [0]⟩) sixOperators).1 =
        .error .insufficientOperators := by
  constructor
  · have hstarted : (Contract.exec afterLastSecond (.startMigration ⟨fill 5, 0⟩)
        sixOperators).toOption.map Prod.snd = some (.migrationStarted 1 ⟨fill 5, 0⟩ 1 2) := by
      decide +kernel
    have hsnapshot : ((snapshot acceptAll sixOperators).toOption.map fun view =>
        ((view.startMigration (some afterLastSecond.sender) leavePlan).toOption,
          failure? (view.applyEvent acceptAll
            (.migrationStarted 1 (.ofContract ⟨fill 5, 0⟩) afterLastSecond.timestamp 2)))) =
        some (some ⟨fill 5, 0⟩,
          some (.invalidMigration (.invalidTimestamp afterLastSecond.timestamp))) := by
      decide +kernel
    obtain ⟨⟨s', event⟩, hexec, rfl⟩ := Option.map_eq_some_iff.mp hstarted
    obtain ⟨view, hview, hobserved⟩ := Option.map_eq_some_iff.mp hsnapshot
    obtain ⟨hsent, hrejected⟩ := Prod.mk.inj hobserved
    exact ⟨view, s', toOption_eq_some.mp hview, toOption_eq_some.mp hsent,
      toOption_eq_some.mp hexec, eq_error_of_failure? hrejected⟩
  · have hsnapshot : ((snapshot acceptAll
        (after (transaction 99 11) (.updateSettings ⟨100, 6, [0]⟩) sixOperators).1).toOption.bind
          fun view => (view.startMigration (some (transaction 99 12).sender) leavePlan).toOption) =
        some ⟨fill 5, 0⟩ := by
      decide +kernel
    obtain ⟨view, hview, hsent⟩ := Option.bind_eq_some_iff.mp hsnapshot
    exact ⟨view, toOption_eq_some.mp hview, toOption_eq_some.mp hsent,
      eq_error_of_failure? (by decide +kernel)⟩

end Cluster
end Wcn
