import Wcn.Contract.Invariants
import Wcn.Cluster.View

/-!
# Wcn.Cluster.Snapshot

The view a node builds from the contract's state.

* `snapshot` — reading the contract: `try_from_sc` of `getView`.
* `Mirrors cfg s view` — what such a view says about the state, field by field.
* `snapshot_mirrors`, `exists_snapshot_iff` — a snapshot of a sound state mirrors it, and can be built
  when its settings and keyspaces can be decoded and its times are representable.
-/

namespace Wcn
namespace Cluster

open Lib
open Contract (Address Bytes)
open Contract.Bitmask

variable {S D : Type}

def snapshot (cfg : Config S D) (s : Contract.State) :
    Except View.TryFromSmartContractError (View S D) :=
  View.tryFromSc cfg (.tryFrom (Contract.getView s))

/-- The operator in a slot of the contract. -/
def operatorAt (cfg : Config S D) (s : Contract.State) (i : Idx) : Option (NodeOperator D) :=
  if i ∈ ones s.operatorBitmask then some (.fromSc cfg (.ofContract (s.operatorSlots i))) else none

/-- What the snapshot makes of the contract's migration. -/
def migrationState (s : Contract.State) : Migration.State :=
  if s.migration.pullingOperatorBitmask ≠ 0 then
    .started ⟨ones s.targetKeyspace.operatorBitmask, .uniformDistribution⟩
      (ones s.migration.pullingOperatorBitmask)
  else if s.migration.startedAt ≤ s.migration.abortedAt then
    .aborted s.migration.abortedAt
  else
    .completed

def holder (slot : Address) : Option Address := if slot = 0 then none else some slot

structure Mirrors (cfg : Config S D) (s : Contract.State) (view : View S D) : Prop where
  consistent : view.nodeOperators.Consistent
  operators : ∀ i, view.nodeOperators.getByIdx i = operatorAt cfg s i
  owner : view.owner = s.owner
  settings : cfg.settings (.ofContract s.settings) = .ok view.settings
  keyspace : view.keyspace = ⟨ones s.primaryKeyspace.operatorBitmask, .uniformDistribution⟩
  keyspaceVersion : view.keyspaceVersion = s.keyspaceVersion
  migration : view.migration = ⟨s.migration.id, s.migration.startedAt, migrationState s⟩
  maintenance : view.maintenance = holder s.maintenanceSlot
  clusterVersion : view.clusterVersion = s.version

/-- What it takes to read a state. -/
structure Readable (cfg : Config S D) (s : Contract.State) : Prop where
  settings : ∃ settings, cfg.settings (.ofContract s.settings) = .ok settings
  primary : s.primaryKeyspace.replicationStrategy = 0
  target : s.migration.pullingOperatorBitmask ≠ 0 → s.targetKeyspace.replicationStrategy = 0
  startedAt : s.migration.startedAt ≤ Migration.maxTimestamp
  abortedAt : s.migration.pullingOperatorBitmask = 0 →
    s.migration.startedAt ≤ s.migration.abortedAt → s.migration.abortedAt ≤ Migration.maxTimestamp

/-! ## Operators -/

section Operators

variable {cfg : Config S D} {s : Contract.State}

/-- The slots of a snapshot. -/
def snapshotSlots (cfg : Config S D) (s : Contract.State) : List (Option (NodeOperator D)) :=
  (SmartContract.ClusterView.tryFrom (Contract.getView s)).nodeOperators.map
    (Option.map (NodeOperator.fromSc cfg))

theorem length_snapshotSlots : (snapshotSlots cfg s).length = (findLastSet s.operatorBitmask).val + 1 := by
  simp [snapshotSlots, SmartContract.ClusterView.tryFrom, Contract.getView]

theorem getElem?_snapshotSlots (hs : Contract.Registry s) (i : Idx)
    (hi : i ≤ findLastSet s.operatorBitmask) : (snapshotSlots cfg s)[i.val]? = some (operatorAt cfg s i) := by
  have hlt : i.val < (findLastSet s.operatorBitmask).val + 1 := Nat.lt_succ_of_le hi
  simp only [snapshotSlots, SmartContract.ClusterView.tryFrom, Contract.getView, List.getElem?_map,
    List.getElem?_range hlt, Option.map_some, Fin.ofNat_val_eq_self]
  congr 1
  rw [operatorAt]
  by_cases hmem : i ∈ ones s.operatorBitmask
  · rw [if_pos (isSet_iff.mpr hmem), if_neg ((hs.occupied i).mp hmem), if_pos hmem, Option.map_some]
  · rw [if_neg (isSet_iff.not.mpr hmem), if_neg hmem]
    rfl

theorem join_snapshotSlots (hs : Contract.Registry s) (h0 : s.operatorBitmask ≠ 0) (i : Idx) :
    ((snapshotSlots cfg s)[i.val]?).join = operatorAt cfg s i := by
  by_cases hi : i ≤ findLastSet s.operatorBitmask
  · rw [getElem?_snapshotSlots hs i hi, Option.join_some]
  · have hnot : i ∉ ones s.operatorBitmask := fun hmem => hi ((findLastSet_mem h0).2 i hmem)
    have hlen : (snapshotSlots cfg s).length ≤ i.val := by
      rw [length_snapshotSlots]
      exact Nat.lt_of_not_le hi
    rw [List.getElem?_eq_none hlen, operatorAt, if_neg hnot]
    rfl

theorem distinct_snapshotSlots (hs : Contract.Registry s) (h0 : s.operatorBitmask ≠ 0) :
    NodeOperators.Distinct (snapshotSlots cfg s) := by
  have hread : ∀ {k : Nat} {operator : NodeOperator D},
      (snapshotSlots cfg s)[k]? = some (some operator) →
      ∃ i : Idx, i.val = k ∧ i ∈ ones s.operatorBitmask ∧ operator.id = (s.operatorSlots i).addr := by
    intro k operator hk
    have hlt : k < 256 := by
      have hlen := (List.getElem?_eq_some_iff.mp hk).1
      rw [length_snapshotSlots] at hlen
      omega
    have hjoin : ((snapshotSlots cfg s)[k]?).join = _ := join_snapshotSlots hs h0 ⟨k, hlt⟩
    rw [hk, Option.join_some, operatorAt] at hjoin
    split at hjoin
    · next hmem => exact ⟨⟨k, hlt⟩, rfl, hmem, by rw [Option.some.inj hjoin]; rfl⟩
    · cases hjoin
  intro k l operator operator' hk hl hid
  obtain ⟨i, rfl, hi, haddr⟩ := hread hk
  obtain ⟨j, rfl, hj, haddr'⟩ := hread hl
  rw [hs.slot_unique hi (haddr.symm.trans (hid.trans haddr'))]

theorem ne_zero_of_countSet {mask : BitVec 256} {n : Nat} (h : n + 1 ≤ countSet mask) : mask ≠ 0 := by
  rintro rfl
  rw [countSet, ones_zero, Finset.card_empty] at h
  omega

theorem le_length_snapshotSlots (hcount : 5 ≤ countSet s.operatorBitmask) :
    5 ≤ (snapshotSlots cfg s).length := by
  have h0 := ne_zero_of_countSet hcount
  rw [length_snapshotSlots]
  -- five slots below the last one cannot fit into fewer positions
  have hsub : ones s.operatorBitmask ⊆ Finset.Iic (findLastSet s.operatorBitmask) := fun i hi =>
    Finset.mem_Iic.mpr ((findLastSet_mem h0).2 i hi)
  have hcard := Finset.card_le_card hsub
  rw [Fin.card_Iic] at hcard
  exact hcount.trans hcard

end Operators

/-! ## Keyspaces and migrations -/

theorem Keyspace.tryFrom_eq_ok {keyspace : SmartContract.Keyspace} {result : Keyspace} :
    Keyspace.tryFrom keyspace = .ok result ↔ keyspace.replicationStrategy = 0 ∧
      5 ≤ keyspace.operators.card ∧ result = ⟨keyspace.operators, .uniformDistribution⟩ := by
  have hmax : ¬ maxOperators < keyspace.operators.card := by
    have hle := Finset.card_le_univ keyspace.operators
    rw [Fintype.card_fin] at hle
    rw [maxOperators]
    omega
  unfold Keyspace.tryFrom Keyspace.new
  rw [if_neg hmax, replicationFactor]
  split_ifs with h₁ h₂
  · exact iff_of_false (by simp) fun h => absurd h.2.1 (by omega)
  · rw [Except.ok.injEq, eq_comm]
    exact ⟨fun h => ⟨h₁, by omega, h⟩, fun h => h.2.2⟩
  · exact iff_of_false (by simp) fun h => absurd h.1 h₁

theorem Keyspace.validate_eq_true {keyspace : Keyspace} {operators : NodeOperators D} :
    keyspace.validate operators = true ↔
      ∀ idx ∈ keyspace.operators, (operators.getByIdx idx).isSome = true := by
  rw [Keyspace.validate, decide_eq_true_eq]
  rfl

theorem Migration.parseTimestamp_eq_ok {ts time : Nat} :
    Migration.parseTimestamp ts = .ok time ↔ ts ≤ Migration.maxTimestamp ∧ time = ts := by
  unfold Migration.parseTimestamp
  split_ifs with h
  · rw [Except.ok.injEq, eq_comm]
    exact ⟨fun heq => ⟨h, heq⟩, And.right⟩
  · exact iff_of_false (by simp) fun hle => absurd hle.1 h

section Migrations

variable {s : Contract.State}

theorem stateFromSc_eq_ok {keyspace : Contract.Keyspace} {state : Migration.State}
    (hkeyspace : s.migration.pullingOperatorBitmask ≠ 0 → keyspace = s.targetKeyspace) :
    Migration.stateFromSc (.ofContract s.migration) (.ofContract keyspace) = .ok state ↔
      state = migrationState s ∧
      (s.migration.pullingOperatorBitmask ≠ 0 → s.targetKeyspace.replicationStrategy = 0 ∧
        5 ≤ countSet s.targetKeyspace.operatorBitmask) ∧
      (s.migration.pullingOperatorBitmask = 0 → s.migration.startedAt ≤ s.migration.abortedAt →
        s.migration.abortedAt ≤ Migration.maxTimestamp) := by
  unfold Migration.stateFromSc migrationState
  by_cases h0 : s.migration.pullingOperatorBitmask = 0
  · by_cases habort : s.migration.startedAt ≤ s.migration.abortedAt
    · simp only [SmartContract.Migration.ofContract, h0, habort, and_self, if_true, map_eq_ok,
        Migration.parseTimestamp_eq_ok, ne_eq, not_true, if_false, false_implies, true_and,
        forall_const]
      constructor
      · rintro ⟨_, ⟨hle, rfl⟩, rfl⟩
        exact ⟨rfl, hle⟩
      · rintro ⟨rfl, hle⟩
        exact ⟨_, ⟨hle, rfl⟩, rfl⟩
    · simp only [SmartContract.Migration.ofContract, h0, habort, if_false,
        SmartContract.bitmaskToHashset, ones_zero, if_true, Except.ok.injEq, ne_eq, not_true,
        false_implies, implies_true, and_true]
      exact eq_comm
  · have hne : ones s.migration.pullingOperatorBitmask ≠ ∅ := ones_eq_empty_iff.not.mpr h0
    rw [hkeyspace h0]
    simp only [SmartContract.Migration.ofContract, h0, and_false, if_false,
      SmartContract.bitmaskToHashset, hne, map_eq_ok, mapError_eq_ok, Keyspace.tryFrom_eq_ok,
      SmartContract.Keyspace.ofContract, ne_eq, not_false_eq_true, if_true, false_implies, and_true,
      forall_const]
    constructor
    · rintro ⟨_, ⟨hstrategy, hcount, rfl⟩, rfl⟩
      exact ⟨rfl, hstrategy, hcount⟩
    · rintro ⟨rfl, hstrategy, hcount⟩
      exact ⟨_, ⟨hstrategy, hcount, rfl⟩, rfl⟩

theorem Migration.tryFromSc_eq_ok {keyspace : Contract.Keyspace} {migration : Migration}
    (hkeyspace : s.migration.pullingOperatorBitmask ≠ 0 → keyspace = s.targetKeyspace) :
    Migration.tryFromSc (.ofContract s.migration) (.ofContract keyspace) = .ok migration ↔
      migration = ⟨s.migration.id, s.migration.startedAt, migrationState s⟩ ∧
      s.migration.startedAt ≤ Migration.maxTimestamp ∧
      (s.migration.pullingOperatorBitmask ≠ 0 → s.targetKeyspace.replicationStrategy = 0 ∧
        5 ≤ countSet s.targetKeyspace.operatorBitmask) ∧
      (s.migration.pullingOperatorBitmask = 0 → s.migration.startedAt ≤ s.migration.abortedAt →
        s.migration.abortedAt ≤ Migration.maxTimestamp) := by
  unfold Migration.tryFromSc
  simp only [bind_eq_ok, stateFromSc_eq_ok hkeyspace, Migration.parseTimestamp_eq_ok,
    Except.ok.injEq]
  constructor
  · rintro ⟨_, ⟨rfl, htarget, habort⟩, _, ⟨hstart, rfl⟩, rfl⟩
    exact ⟨rfl, hstart, htarget, habort⟩
  · rintro ⟨rfl, hstart, htarget, habort⟩
    exact ⟨_, ⟨rfl, htarget, habort⟩, _, ⟨hstart, rfl⟩, rfl⟩

end Migrations

/-! ## Snapshots -/

section Snapshots

variable {cfg : Config S D} {policy : Contract.Policy} {s : Contract.State} {view : View S D}

theorem five_le_countSet (hs : Contract.Sound policy s) : 5 ≤ countSet s.operatorBitmask := by
  rw [← policy.minOperators _ hs.settings]
  exact hs.membership.count

/-- The version whose keyspace is in use, and the one after it. -/
theorem primaryKeyspaceVersion_getView (hs : Contract.Membership s) :
    ∃ version, View.primaryKeyspaceVersion (.tryFrom (Contract.getView s)) = .ok version ∧
      s.keyspaces (Fin.ofNat 2 version) = s.primaryKeyspace ∧
      (s.migration.pullingOperatorBitmask ≠ 0 →
        s.keyspaces (Fin.ofNat 2 (version + 1)) = s.targetKeyspace) := by
  by_cases h0 : s.migration.pullingOperatorBitmask = 0
  · refine ⟨s.keyspaceVersion, if_pos ?_, ?_, fun h => absurd h0 h⟩
    · exact ones_eq_empty_iff.mpr h0
    · rw [Contract.State.primaryKeyspace_idle h0]
      rfl
  · have hversion := hs.started h0
    refine ⟨s.keyspaceVersion - 1, ?_, ?_, fun _ => ?_⟩
    · refine (if_neg (ones_eq_empty_iff.not.mpr h0)).trans (if_neg hversion)
    · rw [Contract.State.primaryKeyspace_migrating h0]
    · rw [Nat.sub_one_add_one hversion]
      rfl

theorem getByIdx_fromSlots (hs : Contract.Registry s) {operators : NodeOperators D}
    (h : NodeOperators.fromSlots (snapshotSlots cfg s) = .ok operators) (i : Idx) :
    operators.getByIdx i = operatorAt cfg s i := by
  have h0 : s.operatorBitmask ≠ 0 := by
    -- without operators there would be a single slot
    intro h0
    have hlen : minOperators ≤ _ := (NodeOperators.length_of_fromSlots h).1
    rw [length_snapshotSlots, h0] at hlen
    exact absurd hlen (by decide +kernel)
  rw [NodeOperators.getByIdx, (NodeOperators.fromSlots_ok h).1]
  exact join_snapshotSlots hs h0 i

/-- Keyspaces of registered operators pass the validation. -/
theorem validate_of_subset {operators : NodeOperators D}
    (h : ∀ i, operators.getByIdx i = operatorAt cfg s i) {keyspace : Keyspace}
    (hsub : keyspace.operators ⊆ ones s.operatorBitmask) : keyspace.validate operators = true := by
  refine Keyspace.validate_eq_true.mpr fun idx hidx => ?_
  rw [h, operatorAt, if_pos (hsub hidx)]
  rfl

/-- What a view says that was built from fetched data. -/
structure BuiltFrom (cfg : Config S D) (fetched : SmartContract.ClusterView) (version : Nat)
    (view : View S D) : Prop where
  nodeOperators : NodeOperators.fromSlots
    (fetched.nodeOperators.map (Option.map (NodeOperator.fromSc cfg))) = .ok view.nodeOperators
  settings : cfg.settings fetched.settings = .ok view.settings
  primaryVersion : View.primaryKeyspaceVersion fetched = .ok version
  keyspace : Keyspace.tryFrom (fetched.keyspaces (Fin.ofNat 2 version)) = .ok view.keyspace
  primaryValid : view.keyspace.validate view.nodeOperators = true
  migration : Migration.tryFromSc fetched.migration
    (fetched.keyspaces (Fin.ofNat 2 (version + 1))) = .ok view.migration
  secondaryValid : view.migration.keyspace.all (·.validate view.nodeOperators) = true
  owner : view.owner = fetched.owner
  keyspaceVersion : view.keyspaceVersion = fetched.keyspaceVersion
  maintenance : view.maintenance = fetched.maintenance
  clusterVersion : view.clusterVersion = fetched.clusterVersion

theorem View.tryFromSc_eq_ok {fetched : SmartContract.ClusterView} :
    View.tryFromSc cfg fetched = .ok view ↔ ∃ version, BuiltFrom cfg fetched version view := by
  unfold View.tryFromSc
  simp only [bind_eq_ok, mapError_eq_ok]
  constructor
  · rintro ⟨operators, hoperators, settings, hsettings, version, hversion, keyspace, hkeyspace, h⟩
    split_ifs at h with hprimary
    obtain ⟨migration, hmigration, h⟩ := bind_eq_ok.mp h
    split_ifs at h with hsecondary
    cases h
    exact ⟨version, hoperators, hsettings, hversion, hkeyspace, hprimary,
      mapError_eq_ok.mp hmigration, hsecondary, rfl, rfl, rfl, rfl⟩
  · rintro ⟨version, h⟩
    refine ⟨_, h.nodeOperators, _, h.settings, version, h.primaryVersion, _, h.keyspace, ?_⟩
    rw [if_neg (not_not.mpr h.primaryValid), bind_eq_ok]
    refine ⟨_, mapError_eq_ok.mpr h.migration, ?_⟩
    rw [if_neg (not_not.mpr h.secondaryValid), ← h.owner, ← h.keyspaceVersion, ← h.maintenance,
      ← h.clusterVersion]

/-- What a node can have read. -/
theorem snapshot_eq_ok (hs : Contract.Membership s) (h : snapshot cfg s = .ok view) :
    Readable cfg s ∧ NodeOperators.fromSlots (snapshotSlots cfg s) = .ok view.nodeOperators ∧
      cfg.settings (.ofContract s.settings) = .ok view.settings ∧
      view.keyspace = ⟨ones s.primaryKeyspace.operatorBitmask, .uniformDistribution⟩ ∧
      view.migration = ⟨s.migration.id, s.migration.startedAt, migrationState s⟩ ∧
      view.owner = s.owner ∧ view.keyspaceVersion = s.keyspaceVersion ∧
      view.maintenance = holder s.maintenanceSlot ∧ view.clusterVersion = s.version := by
  obtain ⟨version, hprimaryVersion, hprimary, htarget⟩ := primaryKeyspaceVersion_getView hs
  obtain ⟨version', hbuilt⟩ := View.tryFromSc_eq_ok.mp h
  cases hprimaryVersion.symm.trans hbuilt.primaryVersion
  have hkeyspace : Keyspace.tryFrom (.ofContract s.primaryKeyspace) = .ok view.keyspace :=
    hprimary ▸ hbuilt.keyspace
  obtain ⟨hstrategy, _, hview⟩ := Keyspace.tryFrom_eq_ok.mp hkeyspace
  obtain ⟨hmigration, hstart, htarget', habort⟩ :=
    (Migration.tryFromSc_eq_ok htarget).mp hbuilt.migration
  exact ⟨⟨⟨_, hbuilt.settings⟩, hstrategy, fun h => (htarget' h).1, hstart, habort⟩,
    hbuilt.nodeOperators, hbuilt.settings, hview, hmigration, hbuilt.owner, hbuilt.keyspaceVersion,
    hbuilt.maintenance, hbuilt.clusterVersion⟩

theorem snapshot_mirrors (hr : Contract.Registry s) (hs : Contract.Membership s)
    (h : snapshot cfg s = .ok view) : Mirrors cfg s view := by
  obtain ⟨_, hoperators, hsettings, hkeyspace, hmigration, howner, hversion, hmaintenance, hcluster⟩ :=
    snapshot_eq_ok hs h
  exact ⟨(NodeOperators.fromSlots_ok hoperators).2, getByIdx_fromSlots hr hoperators, howner,
    hsettings, hkeyspace, hversion, hmigration, hmaintenance, hcluster⟩

theorem exists_fromSlots_snapshotSlots (cfg : Config S D) (hs : Contract.Sound policy s) :
    ∃ operators, NodeOperators.fromSlots (snapshotSlots cfg s) = .ok operators := by
  have hcount := five_le_countSet hs
  have hmax : (snapshotSlots cfg s).length ≤ maxOperators := by
    rw [length_snapshotSlots]
    exact (findLastSet s.operatorBitmask).isLt
  have hmin : 5 ≤ (snapshotSlots cfg s).length := le_length_snapshotSlots hcount
  exact NodeOperators.exists_fromSlots hmin hmax
    (distinct_snapshotSlots hs.registry (ne_zero_of_countSet hcount))

theorem exists_snapshot_iff (hs : Contract.Sound policy s) :
    (∃ view, snapshot cfg s = .ok view) ↔ Readable cfg s := by
  constructor
  · rintro ⟨view, h⟩
    exact (snapshot_eq_ok hs.membership h).1
  · intro hread
    obtain ⟨operators, hoperators⟩ := exists_fromSlots_snapshotSlots cfg hs
    obtain ⟨settings, hsettings⟩ := hread.settings
    obtain ⟨version, hversion, hprimary, htarget⟩ := primaryKeyspaceVersion_getView hs.membership
    have hslots := getByIdx_fromSlots hs.registry hoperators
    have hkeyspace : Keyspace.tryFrom (.ofContract s.primaryKeyspace) =
        .ok ⟨ones s.primaryKeyspace.operatorBitmask, .uniformDistribution⟩ :=
      Keyspace.tryFrom_eq_ok.mpr ⟨hread.primary, hs.keyspaces.primary.2, rfl⟩
    have hmigration := (Migration.tryFromSc_eq_ok htarget).mpr ⟨rfl, hread.startedAt,
      fun h => ⟨hread.target h, (hs.keyspaces.target h).2⟩, hread.abortedAt⟩
    refine ⟨⟨operators, s.owner, settings,
      ⟨ones s.primaryKeyspace.operatorBitmask, .uniformDistribution⟩, s.keyspaceVersion,
      ⟨s.migration.id, s.migration.startedAt, migrationState s⟩, holder s.maintenanceSlot, s.version⟩,
      View.tryFromSc_eq_ok.mpr ⟨version, hoperators, hsettings, hversion, hprimary ▸ hkeyspace,
        validate_of_subset hslots hs.membership.primary, hmigration, ?_, rfl, rfl, rfl, rfl⟩⟩
    by_cases h0 : s.migration.pullingOperatorBitmask = 0
    · rw [Migration.keyspace, migrationState, if_neg (not_not.mpr h0)]
      split_ifs <;> rfl
    · rw [Migration.keyspace, migrationState, if_pos h0, Option.all_some]
      exact validate_of_subset hslots (hs.membership.target h0)

end Snapshots

end Cluster
end Wcn
