import Wcn.Sharding
import Wcn.Cluster.Versions

/-!
# Wcn.Cluster.Routing

From a key to the operators that replicate it.

* `primaryReplicaSet`, `secondaryReplicaSet` — with the shards of a keyspace computed from its
  operators, for an arbitrary hash function. The source computes them when a keyspace enters the view.
* `View.Routable` — the keyspaces of a view are large enough for `calculate_shards`, and their operators
  can be found. `Stored.routable`: that holds of every view a node stores, because the contract keeps
  the operators of its keyspaces registered.
* `stored_view_routes` — then every key has five replicas, registered in a state of the contract.
-/

namespace Wcn
namespace Cluster

open Lib
open Contract (Address Env Call Transition transaction sixOperators after)
open Contract.Bitmask
open Sharding (ShardId)

variable {S D : Type}

/-! ## Shards and replica sets -/

namespace Keyspace

def calculateShards (hash : Idx → Nat → UInt64) (keyspace : Keyspace) :
    Except Panic (Sharding.Keyspace Idx) :=
  match Sharding.Keyspace.new hash Sharding.defaultReplicationStrategy replicationFactor
      keyspace.operators.sort with
  | .ok sharding => .ok sharding
  | .error _ => .error .unreachable

def shard (hash : Idx → Nat → UInt64) (keyspace : Keyspace) (key : UInt64) :
    Except Panic (List Idx) := do
  let shards ← keyspace.calculateShards hash
  match shards.shardReplicas (.fromKey key) with
  | some replicaSet => .ok replicaSet
  | none => .error .indexOutOfBounds

end Keyspace

namespace View

/-- `get_by_idx(idx).unwrap()`. -/
def operatorByIdx (view : View S D) (idx : Idx) : Except Panic (NodeOperator D) :=
  match view.nodeOperators.getByIdx idx with
  | some operator => .ok operator
  | none => .error .unknownOperator

def primaryReplicaSet (hash : Idx → Nat → UInt64) (view : View S D) (key : UInt64) :
    Except Panic (List (NodeOperator D)) := do
  let replicaSet ← view.keyspace.shard hash key
  replicaSet.mapM view.operatorByIdx

def secondaryReplicaSet (hash : Idx → Nat → UInt64) (view : View Settings D) (key : UInt64)
    (now : OffsetDateTime) : Except Panic (Option (List (NodeOperator D))) := do
  let shadowing ← view.isSecondaryKeyspaceShadowingOn now
  if shadowing then
    match view.migration.keyspace with
    | none => .ok none
    | some keyspace => do
      let replicaSet ← keyspace.shard hash key
      let operators ← replicaSet.mapM view.operatorByIdx
      .ok (some operators)
  else
    .ok none

/-- The shards of a keyspace with the operators of their replica sets. The source looks these up one
shard at a time. -/
def keyspaceShards (hash : Idx → Nat → UInt64) (view : View S D) (keyspace : Keyspace) :
    Except Panic (List (ShardId × List (NodeOperator D))) := do
  let shards ← keyspace.calculateShards hash
  shards.iterShards.mapM fun shard => do
    let replicaSet ← shard.2.mapM view.operatorByIdx
    .ok (shard.1, replicaSet)

def primaryKeyspaceShards (hash : Idx → Nat → UInt64) (view : View S D) :
    Except Panic (List (ShardId × List (NodeOperator D))) :=
  view.keyspaceShards hash view.keyspace

def secondaryKeyspaceShards (hash : Idx → Nat → UInt64) (view : View Settings D)
    (now : OffsetDateTime) : Except Panic (Option (List (ShardId × List (NodeOperator D)))) := do
  let shadowing ← view.isSecondaryKeyspaceShadowingOn now
  if shadowing then
    match view.migration.keyspace with
    | none => .ok none
    | some keyspace => do
      let shards ← view.keyspaceShards hash keyspace
      .ok (some shards)
  else
    .ok none

end View

/-- Enough operators fill every shard. -/
theorem Keyspace.shard_ok {keyspace : Keyspace} (h : 5 ≤ keyspace.operators.card)
    (hash : Idx → Nat → UInt64) (key : UInt64) :
    ∃ replicaSet, keyspace.shard hash key = .ok replicaSet ∧ replicaSet.length = 5 ∧
      replicaSet.Nodup ∧ ∀ idx ∈ replicaSet, idx ∈ keyspace.operators := by
  have hcount : replicationFactor ≤ keyspace.operators.sort.dedup.length := by
    rw [(keyspace.operators.sort_nodup _).dedup, Finset.length_sort]
    exact h
  obtain ⟨sharding, hsharding⟩ := Sharding.exists_new hash hcount
  obtain ⟨replicaSet, hreplicas, hlen, hnodup, hmem⟩ := Sharding.new_ok hsharding (.fromKey key)
  refine ⟨replicaSet, ?_, hlen, hnodup, fun idx hidx => (Finset.mem_sort _).mp (hmem idx hidx)⟩
  rw [Keyspace.shard, Keyspace.calculateShards, hsharding]
  refine bind_eq_ok.mpr ⟨sharding, rfl, ?_⟩
  rw [hreplicas]

/-! ## Replica sets -/

namespace View

section Replicas

variable {view : View S D} {hash : Idx → Nat → UInt64} {key : UInt64}

/-- Every operator of the keyspaces in use can be found. -/
structure Routable (view : View S D) : Prop where
  sized : view.Sized
  consistent : view.nodeOperators.Consistent
  primary : ∀ idx ∈ view.keyspace.operators, ∃ operator,
    view.nodeOperators.getByIdx idx = some operator
  secondary : ∀ keyspace, view.migration.keyspace = some keyspace →
    ∀ idx ∈ keyspace.operators, ∃ operator, view.nodeOperators.getByIdx idx = some operator

/-- Five operators of the keyspace, with different ids. -/
structure Replicates (view : View S D) (keyspace : Keyspace) (operators : List (NodeOperator D)) :
    Prop where
  length : operators.length = 5
  nodup : (operators.map NodeOperator.id).Nodup
  known : ∀ operator ∈ operators, ∃ idx ∈ keyspace.operators,
    view.nodeOperators.getByIdx idx = some operator

theorem operatorByIdx_eq_ok {idx : Idx} {operator : NodeOperator D} :
    view.operatorByIdx idx = .ok operator ↔ view.nodeOperators.getByIdx idx = some operator := by
  unfold operatorByIdx
  cases view.nodeOperators.getByIdx idx <;> simp

theorem replicates_shard {keyspace : Keyspace} (hcons : view.nodeOperators.Consistent)
    (hcount : 5 ≤ keyspace.operators.card)
    (hknown : ∀ idx ∈ keyspace.operators, ∃ operator,
      view.nodeOperators.getByIdx idx = some operator) (hash : Idx → Nat → UInt64) (key : UInt64) :
    ∃ replicaSet operators, keyspace.shard hash key = .ok replicaSet ∧
      replicaSet.mapM view.operatorByIdx = .ok operators ∧ view.Replicates keyspace operators := by
  obtain ⟨replicaSet, hshard, hlen, hnodup, hmem⟩ := keyspace.shard_ok hcount hash key
  obtain ⟨operators, hoperators⟩ := exists_mapM (f := view.operatorByIdx) (l := replicaSet) (by
    intro idx hidx
    obtain ⟨operator, hoperator⟩ := hknown idx (hmem idx hidx)
    exact ⟨operator, operatorByIdx_eq_ok.mpr hoperator⟩)
  refine ⟨replicaSet, operators, hshard, hoperators, ?_, ?_, ?_⟩
  · rw [← (mapM_eq_ok.mp hoperators).length_eq, hlen]
  · refine nodup_map_mapM hoperators hnodup ?_
    intro idx idx' operator operator' h h' hid
    -- the index of an id is unique
    have hidx := (hcons operator.id idx).mpr ⟨operator, operatorByIdx_eq_ok.mp h, rfl⟩
    have hidx' := (hcons operator.id idx').mpr ⟨operator', operatorByIdx_eq_ok.mp h', hid.symm⟩
    exact Option.some.inj (hidx.symm.trans hidx')
  · intro operator hoperator
    obtain ⟨idx, hidx, h⟩ := mem_mapM hoperators hoperator
    exact ⟨idx, hmem idx hidx, operatorByIdx_eq_ok.mp h⟩

theorem primaryReplicaSet_ok (hview : view.Routable) (hash : Idx → Nat → UInt64) (key : UInt64) :
    ∃ operators, view.primaryReplicaSet hash key = .ok operators ∧
      view.Replicates view.keyspace operators := by
  obtain ⟨replicaSet, operators, hshard, hoperators, hreplicates⟩ :=
    replicates_shard hview.consistent hview.sized.primary hview.primary hash key
  exact ⟨operators, bind_eq_ok.mpr ⟨replicaSet, hshard, hoperators⟩, hreplicates⟩

end Replicas

section Shadowing

variable {view : View Settings D} {now : OffsetDateTime}

theorem isInProgress_of_shadowing (h : view.isSecondaryKeyspaceShadowingOn now = .ok true) :
    view.migration.isInProgress = true := by
  by_contra hnot
  rw [isSecondaryKeyspaceShadowingOn, if_neg hnot] at h
  cases h

theorem secondaryReplicaSet_shadowing (hview : view.Routable) (hash : Idx → Nat → UInt64)
    (key : UInt64) (h : view.isSecondaryKeyspaceShadowingOn now = .ok true) :
    ∃ keyspace operators, view.migration.keyspace = some keyspace ∧
      view.secondaryReplicaSet hash key now = .ok (some operators) ∧
      view.Replicates keyspace operators := by
  obtain ⟨keyspace, hkeyspace⟩ := isInProgress_iff.mp (isInProgress_of_shadowing h)
  obtain ⟨replicaSet, operators, hshard, hoperators, hreplicates⟩ :=
    replicates_shard hview.consistent (hview.sized.secondary keyspace hkeyspace)
      (hview.secondary keyspace hkeyspace) hash key
  refine ⟨keyspace, operators, hkeyspace, ?_, hreplicates⟩
  refine bind_eq_ok.mpr ⟨true, h, ?_⟩
  simp only [if_true, hkeyspace]
  exact bind_eq_ok.mpr ⟨replicaSet, hshard, bind_eq_ok.mpr ⟨operators, hoperators, rfl⟩⟩

/-- When writes are shadowed, a replica set that is returned is some. -/
theorem exists_of_shadowing {hash : Idx → Nat → UInt64} {key : UInt64}
    {result : Option (List (NodeOperator D))}
    (h : view.isSecondaryKeyspaceShadowingOn now = .ok true)
    (hresult : view.secondaryReplicaSet hash key now = .ok result) :
    ∃ operators, result = some operators := by
  obtain ⟨keyspace, hkeyspace⟩ := isInProgress_iff.mp (isInProgress_of_shadowing h)
  obtain ⟨shadowing, hshadowing, hresult⟩ := bind_eq_ok.mp hresult
  cases h.symm.trans hshadowing
  simp only [if_true, hkeyspace] at hresult
  obtain ⟨_, _, hresult⟩ := bind_eq_ok.mp hresult
  obtain ⟨operators, _, hresult⟩ := bind_eq_ok.mp hresult
  cases hresult
  exact ⟨operators, rfl⟩

theorem secondaryReplicaSet_of_not_shadowing (hash : Idx → Nat → UInt64) (key : UInt64)
    (h : view.isSecondaryKeyspaceShadowingOn now = .ok false) :
    view.secondaryReplicaSet hash key now = .ok none :=
  bind_eq_ok.mpr ⟨false, h, rfl⟩

/-- The start of a migration in progress takes effect at a time that can be represented. -/
def StartTakesEffect (view : View Settings D) : Prop :=
  view.migration.isInProgress = true → view.effectiveAt view.migration.startedAt ≤ maxNanos

theorem exists_shadowing (h : view.StartTakesEffect) (now : OffsetDateTime) :
    ∃ shadowing, view.isSecondaryKeyspaceShadowingOn now = .ok shadowing := by
  unfold isSecondaryKeyspaceShadowingOn
  split_ifs with hprogress
  · exact ⟨_, hasPropagated_eq_ok.mpr ⟨h hprogress, rfl⟩⟩
  · exact ⟨false, rfl⟩

theorem secondaryReplicaSet_panics (h : ¬ view.StartTakesEffect) (hash : Idx → Nat → UInt64)
    (key : UInt64) (now : OffsetDateTime) :
    view.secondaryReplicaSet hash key now = .error .timeOutOfRange := by
  rw [StartTakesEffect, Classical.not_imp, Int.not_le] at h
  rw [secondaryReplicaSet, isSecondaryKeyspaceShadowingOn, if_pos h.1, hasPropagated_of_gt h.2]
  rfl

end Shadowing

end View

/-! ## All shards -/

namespace View

section Shards

variable {hash : Idx → Nat → UInt64}

theorem calculateShards_eq_ok {keyspace : Keyspace} {sharding : Sharding.Keyspace Idx} :
    keyspace.calculateShards hash = .ok sharding ↔
      Sharding.Keyspace.new hash Sharding.defaultReplicationStrategy replicationFactor
        keyspace.operators.sort = .ok sharding := by
  unfold Keyspace.calculateShards
  split
  · next h => rw [h, Except.ok.injEq, Except.ok.injEq]
  · next h => simp [h]

/-- The shard of a key is among the shards, with the replica set of the key. -/
theorem keyspaceShards_getElem? {view : View S D} {keyspace : Keyspace}
    {shards : List (ShardId × List (NodeOperator D))}
    (h : view.keyspaceShards hash keyspace = .ok shards) (key : UInt64) :
    ∃ replicaSet operators, keyspace.shard hash key = .ok replicaSet ∧
      replicaSet.mapM view.operatorByIdx = .ok operators ∧
      shards[(ShardId.fromKey key).toNat]? = some (.fromKey key, operators) := by
  obtain ⟨sharding, hsharding, h⟩ := bind_eq_ok.mp h
  obtain ⟨replicaSet, hreplicas, -⟩ :=
    Sharding.new_ok (calculateShards_eq_ok.mp hsharding) (.fromKey key)
  have hget : sharding.iterShards[(ShardId.fromKey key).toNat]? = some (.fromKey key, replicaSet) := by
    rw [Sharding.getElem?_iterShards, hreplicas]
    rfl
  obtain ⟨shard, hshard, h⟩ := getElem?_mapM h hget
  obtain ⟨operators, hoperators, h⟩ := bind_eq_ok.mp h
  cases h
  refine ⟨replicaSet, operators, bind_eq_ok.mpr ⟨sharding, hsharding, ?_⟩, hoperators, hshard⟩
  rw [hreplicas]

theorem primaryKeyspaceShards_getElem? {view : View S D}
    {shards : List (ShardId × List (NodeOperator D))}
    (h : view.primaryKeyspaceShards hash = .ok shards) (key : UInt64) :
    ∃ operators, view.primaryReplicaSet hash key = .ok operators ∧
      shards[(ShardId.fromKey key).toNat]? = some (.fromKey key, operators) := by
  obtain ⟨replicaSet, operators, hshard, hoperators, hget⟩ := keyspaceShards_getElem? h key
  exact ⟨operators, bind_eq_ok.mpr ⟨replicaSet, hshard, hoperators⟩, hget⟩

theorem secondaryKeyspaceShards_eq_some {view : View Settings D} {now : OffsetDateTime}
    {shards : List (ShardId × List (NodeOperator D))} :
    view.secondaryKeyspaceShards hash now = .ok (some shards) ↔
      view.isSecondaryKeyspaceShadowingOn now = .ok true ∧
      ∃ keyspace, view.migration.keyspace = some keyspace ∧
        view.keyspaceShards hash keyspace = .ok shards := by
  rw [secondaryKeyspaceShards, bind_eq_ok]
  constructor
  · rintro ⟨shadowing, hshadowing, h⟩
    split_ifs at h with hon
    · subst hon
      refine ⟨hshadowing, ?_⟩
      split at h
      · cases h
      · next keyspace hkeyspace =>
        obtain ⟨shards', hshards, h⟩ := bind_eq_ok.mp h
        cases h
        exact ⟨keyspace, hkeyspace, hshards⟩
    · cases h
  · rintro ⟨hshadowing, keyspace, hkeyspace, hshards⟩
    refine ⟨true, hshadowing, ?_⟩
    simp only [if_true, hkeyspace]
    exact bind_eq_ok.mpr ⟨shards, hshards, rfl⟩

theorem secondaryKeyspaceShards_getElem? {view : View Settings D} {now : OffsetDateTime}
    {shards : List (ShardId × List (NodeOperator D))}
    (h : view.secondaryKeyspaceShards hash now = .ok (some shards)) (key : UInt64) :
    ∃ operators, view.secondaryReplicaSet hash key now = .ok (some operators) ∧
      shards[(ShardId.fromKey key).toNat]? = some (.fromKey key, operators) := by
  obtain ⟨hshadowing, keyspace, hkeyspace, hshards⟩ := secondaryKeyspaceShards_eq_some.mp h
  obtain ⟨replicaSet, operators, hshard, hoperators, hget⟩ := keyspaceShards_getElem? hshards key
  refine ⟨operators, bind_eq_ok.mpr ⟨true, hshadowing, ?_⟩, hget⟩
  simp only [if_true, hkeyspace]
  exact bind_eq_ok.mpr ⟨replicaSet, hshard, bind_eq_ok.mpr ⟨operators, hoperators, rfl⟩⟩

/-- Every shard finds the operators of its replica set. -/
theorem exists_keyspaceShards {view : View S D} {keyspace : Keyspace}
    (hcons : view.nodeOperators.Consistent) (hcount : 5 ≤ keyspace.operators.card)
    (hknown : ∀ idx ∈ keyspace.operators, ∃ operator,
      view.nodeOperators.getByIdx idx = some operator) (hash : Idx → Nat → UInt64) :
    ∃ shards, view.keyspaceShards hash keyspace = .ok shards ∧
      ∀ shard ∈ shards, view.Replicates keyspace shard.2 := by
  obtain ⟨_, hshard, -⟩ := keyspace.shard_ok hcount hash 0
  obtain ⟨sharding, hsharding, -⟩ := bind_eq_ok.mp hshard
  have hresolves : ∀ shard ∈ sharding.iterShards, ∃ operators,
      shard.2.mapM view.operatorByIdx = .ok operators ∧ view.Replicates keyspace operators := by
    intro shard hmem
    -- the first key of the shard
    have hkey : ShardId.fromKey shard.1.keyRange.1 = shard.1 := by
      rw [← Sharding.mem_keyRange]
      have := Sharding.toNat_keyRange shard.1
      rw [UInt64.le_iff_toNat_le, UInt64.le_iff_toNat_le]
      omega
    obtain ⟨replicaSet, operators, hshard, hoperators, hreplicates⟩ :=
      replicates_shard hcons hcount hknown hash shard.1.keyRange.1
    obtain ⟨sharding', hsharding', hshard⟩ := bind_eq_ok.mp hshard
    cases hsharding.symm.trans hsharding'
    rw [hkey, Sharding.mem_iterShards (calculateShards_eq_ok.mp hsharding) hmem] at hshard
    cases hshard
    exact ⟨operators, hoperators, hreplicates⟩
  obtain ⟨shards, hshards⟩ := exists_mapM (f := fun shard : ShardId × List Idx => do
      let replicaSet ← shard.2.mapM view.operatorByIdx
      .ok (shard.1, replicaSet)) (l := sharding.iterShards) (by
    intro shard hmem
    obtain ⟨operators, hoperators, -⟩ := hresolves shard hmem
    exact ⟨(shard.1, operators), bind_eq_ok.mpr ⟨operators, hoperators, rfl⟩⟩)
  refine ⟨shards, bind_eq_ok.mpr ⟨sharding, hsharding, hshards⟩, fun shard hmem => ?_⟩
  obtain ⟨shard', hmem', h⟩ := mem_mapM hshards hmem
  obtain ⟨operators, hoperators, h⟩ := bind_eq_ok.mp h
  cases h
  obtain ⟨operators', hoperators', hreplicates⟩ := hresolves shard' hmem'
  cases hoperators.symm.trans hoperators'
  exact hreplicates

end Shards

end View

/-! ## A fixed preference -/

section Preference

/-- The later slots of the operators are preferred. -/
def preferLater (idx : Idx) (_ : Nat) : UInt64 := .ofNat (255 - idx.val)

/-- The replicas of every key by this preference, by their operators. -/
def preferred (view : View Settings D) (keyspace : Keyspace) : List (Option Address) :=
  (best (Sharding.Precedes preferLater 0) 5
    ((List.finRange 256).filter (· ∈ keyspace.operators))).map fun idx =>
      (view.nodeOperators.getByIdx idx).map NodeOperator.id

theorem shard_preferLater {keyspace : Keyspace} (h : 5 ≤ keyspace.operators.card) :
    keyspace.shard preferLater 0 =
      .ok (best (Sharding.Precedes preferLater 0) 5
        ((List.finRange 256).filter (· ∈ keyspace.operators))) := by
  have hsort : keyspace.operators.sort.dedup =
      (List.finRange 256).filter (· ∈ keyspace.operators) := by
    rw [(keyspace.operators.sort_nodup _).dedup]
    refine keyspace.operators.sortedLT_sort.eq_of_mem_iff
      ((List.sortedLT_finRange 256).pairwise.filter _).sortedLT fun idx => ?_
    rw [Finset.mem_sort, List.mem_filter, decide_eq_true_iff]
    exact (and_iff_right (List.mem_finRange idx)).symm
  have hcount : 5 ≤ keyspace.operators.sort.dedup.length := by
    rw [(keyspace.operators.sort_nodup _).dedup, Finset.length_sort]
    exact h
  obtain ⟨sharding, hnew, hreplicas⟩ := Sharding.shardReplicas_default preferLater hcount
  refine bind_eq_ok.mpr ⟨sharding, View.calculateShards_eq_ok.mpr hnew, ?_⟩
  rw [hreplicas, hsort]
  rfl

theorem exists_preferred {view : View Settings D} {keyspace : Keyspace} {operators : List Address}
    (hcard : 5 ≤ keyspace.operators.card)
    (h : preferred view keyspace = operators.map some) :
    ∃ found, (keyspace.shard preferLater 0 >>= fun replicas => replicas.mapM view.operatorByIdx) =
      .ok found ∧ found.map NodeOperator.id = operators := by
  rw [shard_preferLater hcard]
  have hfound : ∀ {replicas : List Idx} {operators : List Address},
      replicas.map (fun idx => (view.nodeOperators.getByIdx idx).map NodeOperator.id) =
        operators.map some → ∃ found, replicas.mapM view.operatorByIdx = .ok found ∧
          found.map NodeOperator.id = operators := by
    intro replicas
    induction replicas with
    | nil =>
      intro operators h
      exact ⟨[], rfl, (List.map_eq_nil_iff.mp h.symm).symm⟩
    | cons idx replicas ih =>
      intro operators h
      cases operators with
      | nil => cases h
      | cons id operators =>
        obtain ⟨hid, hrest⟩ := List.cons.inj h
        obtain ⟨operator, hoperator, rfl⟩ := Option.map_eq_some_iff.mp hid
        obtain ⟨found, hmap, rfl⟩ := ih hrest
        refine ⟨operator :: found, ?_, rfl⟩
        rw [List.mapM_cons]
        exact bind_eq_ok.mpr ⟨operator, View.operatorByIdx_eq_ok.mpr hoperator,
          bind_eq_ok.mpr ⟨found, hmap, rfl⟩⟩
  exact hfound h

theorem secondaryReplicaSet_preferred {view : View Settings D} {keyspace : Keyspace}
    {operators : List Address} (hcard : 5 ≤ keyspace.operators.card)
    (h : preferred view keyspace = operators.map some)
    (hkeyspace : view.migration.keyspace = some keyspace) {now : OffsetDateTime}
    {found : List (NodeOperator D)}
    (hfound : view.secondaryReplicaSet preferLater 0 now = .ok (some found)) :
    found.map NodeOperator.id = operators := by
  obtain ⟨shadowing, _, hfound⟩ := bind_eq_ok.mp hfound
  split_ifs at hfound
  case neg => cases hfound
  rw [hkeyspace] at hfound
  obtain ⟨replicas, hreplicas, hfound⟩ := bind_eq_ok.mp hfound
  obtain ⟨operators', hoperators, hfound⟩ := bind_eq_ok.mp hfound
  cases hfound
  obtain ⟨found', hfound', hids⟩ := exists_preferred hcard h
  cases hfound'.symm.trans (bind_eq_ok.mpr ⟨replicas, hreplicas, hoperators⟩)
  exact hids

end Preference

/-! ## Routing next to the chain -/

section Chain

variable {cfg : Config Settings D} {s : Contract.State} {view : View Settings D}

/-- The operator occupies a slot of the contract. -/
def Registered (s : Contract.State) (operator : NodeOperator D) : Prop :=
  ∃ idx ∈ ones s.operatorBitmask, (s.operatorSlots idx).addr = operator.id

structure RegisteredReplicas (s : Contract.State) (operators : List (NodeOperator D)) : Prop where
  length : operators.length = 5
  distinct : (operators.map NodeOperator.id).Nodup
  registered : ∀ operator ∈ operators, Registered s operator

/-- The operators of the keyspaces in use are registered. -/
structure Covers (s : Contract.State) (view : View S D) : Prop where
  primary : view.keyspace.operators ⊆ ones s.operatorBitmask
  secondary : ∀ keyspace, view.migration.keyspace = some keyspace →
    keyspace.operators ⊆ ones s.operatorBitmask

theorem Tracks.covers (hv : Tracks cfg s view) (hs : Contract.Membership s) : Covers s view := by
  constructor
  case primary =>
    rw [hv.shows.keyspace]
    exact hs.primary
  case secondary =>
    intro keyspace hkeyspace
    have hpulling : s.migration.pullingOperatorBitmask ≠ 0 := by
      intro h0
      have hidle := hv.idle h0
      rw [View.isInProgress_iff.mpr ⟨keyspace, hkeyspace⟩] at hidle
      cases hidle
    rw [hv.keyspace_eq_some hpulling] at hkeyspace
    cases hkeyspace
    exact hs.target hpulling

theorem Tracks.getByIdx_of_mem (hv : Tracks cfg s view) {idx : Idx}
    (h : idx ∈ ones s.operatorBitmask) :
    ∃ operator, view.nodeOperators.getByIdx idx = some operator ∧ Registered s operator := by
  refine ⟨.fromSc cfg (.ofContract (s.operatorSlots idx)), ?_, idx, h, rfl⟩
  rw [hv.shows.operators, operatorAt, if_pos h]

theorem Stored.routable {chain : Chain} (hc : chain.Linked) (hv : Stored cfg chain view) :
    view.Routable := by
  obtain ⟨s, hs, htracks⟩ := hv.tracks
  have hcovers := htracks.covers (hc.membership s hs)
  constructor
  case sized => exact hv.reached.sized
  case consistent => exact htracks.consistent
  case primary =>
    intro idx hidx
    obtain ⟨operator, hoperator, _⟩ := htracks.getByIdx_of_mem (hcovers.primary hidx)
    exact ⟨operator, hoperator⟩
  case secondary =>
    intro keyspace hkeyspace idx hidx
    obtain ⟨operator, hoperator, _⟩ :=
      htracks.getByIdx_of_mem (hcovers.secondary keyspace hkeyspace hidx)
    exact ⟨operator, hoperator⟩

theorem View.Replicates.registered {keyspace : Keyspace} {operators : List (NodeOperator D)}
    (h : view.Replicates keyspace operators) (hv : Tracks cfg s view)
    (hkeyspace : keyspace.operators ⊆ ones s.operatorBitmask) : RegisteredReplicas s operators := by
  refine ⟨h.length, h.nodup, ?_⟩
  intro operator hmem
  obtain ⟨idx, hidx, hknown⟩ := h.known operator hmem
  obtain ⟨operator', hoperator', hregistered⟩ := hv.getByIdx_of_mem (hkeyspace hidx)
  cases hknown.symm.trans hoperator'
  exact hregistered

/-- Wherever a node stands next to the chain, it finds the replicas of every key. What remains is the
time at which shadowing starts: `has_event_propagated` panics when it cannot be represented. -/
theorem stored_view_routes (cfg : Config Settings D) (hash : Idx → Nat → UInt64) {env : Env}
    {settings : Contract.Settings} {operators : List Contract.NodeOperator} {s₀ : Contract.State}
    (hinit : Contract.initializeCluster env settings operators = .ok s₀)
    (hnonzero : ∀ op ∈ operators, op.addr ≠ 0)
    (hdistinct : (operators.map Contract.NodeOperator.addr).Nodup) {w : World Settings D}
    (hrun : Run (World.Step cfg) ⟨⟨s₀, [], []⟩, none, []⟩ w) {task : Task Settings D}
    (htask : w.task = some task) :
    ∃ s ∈ w.chain.states, s.version = task.view.clusterVersion ∧
      (∀ idx ∈ task.view.keyspace.operators, ∃ operator,
        task.view.nodeOperators.getByIdx idx = some operator ∧ Registered s operator) ∧
      (∀ keyspace, task.view.migration.keyspace = some keyspace → ∀ idx ∈ keyspace.operators,
        ∃ operator, task.view.nodeOperators.getByIdx idx = some operator ∧ Registered s operator) ∧
      (∀ key, ∃ replicas, task.view.primaryReplicaSet hash key = .ok replicas ∧
        RegisteredReplicas s replicas) ∧
      (task.view.StartTakesEffect → ∀ key now,
        (task.view.isSecondaryKeyspaceShadowingOn now = .ok false ∧
          task.view.secondaryReplicaSet hash key now = .ok none) ∨
        (task.view.isSecondaryKeyspaceShadowingOn now = .ok true ∧ ∃ replicas,
          task.view.secondaryReplicaSet hash key now = .ok (some replicas) ∧
          RegisteredReplicas s replicas)) ∧
      (¬ task.view.StartTakesEffect → ∀ key now,
        task.view.secondaryReplicaSet hash key now = .error .timeOutOfRange) := by
  have hstores := World.stores_run hinit hnonzero hdistinct hrun
  have hstored := hstores.stored task htask
  have hroutable := hstored.routable hstores.linked
  obtain ⟨s, hs, htracks⟩ := hstored.tracks
  have hcovers := htracks.covers (hstores.linked.membership s hs)
  refine ⟨s, hs, htracks.clusterVersion.symm, ?_, ?_, ?_, ?_, ?_⟩
  · intro idx hidx
    exact htracks.getByIdx_of_mem (hcovers.primary hidx)
  · intro keyspace hkeyspace idx hidx
    exact htracks.getByIdx_of_mem (hcovers.secondary keyspace hkeyspace hidx)
  · intro key
    obtain ⟨replicas, hprimary, hreplicates⟩ := View.primaryReplicaSet_ok hroutable hash key
    exact ⟨replicas, hprimary, hreplicates.registered htracks hcovers.primary⟩
  · intro heffect key now
    obtain ⟨shadowing, hshadowing⟩ := View.exists_shadowing heffect now
    cases shadowing with
    | false =>
      exact .inl ⟨hshadowing, View.secondaryReplicaSet_of_not_shadowing hash key hshadowing⟩
    | true =>
      obtain ⟨keyspace, replicas, hkeyspace, hsecondary, hreplicates⟩ :=
        View.secondaryReplicaSet_shadowing hroutable hash key hshadowing
      exact .inr ⟨hshadowing, replicas, hsecondary,
        hreplicates.registered htracks (hcovers.secondary keyspace hkeyspace)⟩
  · intro hpanics key now
    exact View.secondaryReplicaSet_panics hpanics hash key now

/-- A migration of the six operators' cluster is started, and a node connects. -/
theorem run_connected (env : Env) (call : Call) {view : View Settings Unit}
    (hcall : (failure? (Contract.exec env call sixOperators)).isNone = true)
    (hview : snapshot usualSettings (after env call sixOperators).1 = .ok view) :
    Run (World.Step usualSettings) ⟨⟨sixOperators, [], []⟩, none, []⟩
      ⟨Chain.append ⟨sixOperators, [], []⟩ env (after env call sixOperators).1
        (after env call sixOperators).2, some ⟨view, .streaming⟩, []⟩ := by
  have hnew : Task.new usualSettings
      (.tryFrom (Contract.getView (after env call sixOperators).1)) = .ok ⟨view, .streaming⟩ :=
    bind_eq_ok.mpr ⟨view, hview, rfl⟩
  exact .tail (.single (.transaction (Contract.exec_after env call sixOperators hcall)))
    (.connect List.mem_cons_self hnew)

theorem effective_migrating {view : View Settings Unit} (hsettings : view.settings = .default)
    (hstarted : view.migration.startedAt = 11) :
    view.effectiveAt view.migration.startedAt ≤ (instant 16000).nanos := by
  rw [View.effectiveAt, hsettings, hstarted]
  decide

theorem shadowing_migrating {view : View Settings Unit} (hsettings : view.settings = .default)
    (hprogress : view.migration.isInProgress = true) (hstarted : view.migration.startedAt = 11) :
    view.isSecondaryKeyspaceShadowingOn (instant 16000) = .ok true := by
  rw [View.isSecondaryKeyspaceShadowingOn, if_pos hprogress, View.hasPropagated_eq_true]
  exact effective_migrating hsettings hstarted

theorem routable_migrating {view : View Settings Unit}
    (hview : snapshot usualSettings migrating = .ok view) : view.Routable := by
  have hstores := World.stores_run Contract.initialize_sixOperators (by decide) (by decide)
    (run_connected (transaction 99 11) (.startMigration ⟨fill 5, 0⟩) (by decide +kernel) hview)
  exact (hstores.stored _ rfl).routable hstores.linked

/-- With this preference the first operator joins the replicas of a key, and the sixth one leaves. -/
theorem replicas_migrating {view : View Settings Unit}
    (hview : snapshot usualSettings migrating = .ok view) :
    (∃ old, view.primaryReplicaSet preferLater 0 = .ok old ∧
      old.map NodeOperator.id = [6, 5, 4, 3, 2]) ∧
    ∀ now new, view.secondaryReplicaSet preferLater 0 now = .ok (some new) →
      new.map NodeOperator.id = [5, 4, 3, 2, 1] := by
  have hobserved : (snapshot usualSettings migrating).toOption.map (fun view =>
      (preferred view view.keyspace, view.migration.keyspace.map (preferred view))) =
      some ([6, 5, 4, 3, 2].map some, some ([5, 4, 3, 2, 1].map some)) := by
    decide +kernel
  rw [hview, Except.toOption, Option.map_some, Option.some.injEq] at hobserved
  obtain ⟨hprimary, hsecondary⟩ := Prod.mk.inj hobserved
  have hroutable := routable_migrating hview
  constructor
  · exact exists_preferred hroutable.sized.1 hprimary
  · intro now new hnew
    obtain ⟨keyspace, hkeyspace, hpreferred⟩ := Option.map_eq_some_iff.mp hsecondary
    exact secondaryReplicaSet_preferred (hroutable.sized.2 keyspace hkeyspace) hpreferred hkeyspace
      hnew

/-- At second 16 writes are shadowed to five operators. -/
theorem stored_view_routes_migrating :
    ∃ (s : Contract.State) (view : View Settings Unit), snapshot usualSettings migrating = .ok view ∧
      ∀ key, ∃ replicas,
        view.secondaryReplicaSet (fun _ _ => 0) key (instant 16000) = .ok (some replicas) ∧
        RegisteredReplicas s replicas := by
  obtain ⟨view, hview, hsettings, hprogress, hstarted, _⟩ := snapshot_migrating
  have hshadowing := shadowing_migrating hsettings hprogress hstarted
  have hrun := run_connected (transaction 99 11) (.startMigration ⟨fill 5, 0⟩) (by decide +kernel)
    hview
  obtain ⟨s, _, _, _, _, _, hsecondary, _⟩ := stored_view_routes usualSettings (fun _ _ => 0)
    Contract.initialize_sixOperators (by decide) (by decide) hrun rfl
  have heffect : view.StartTakesEffect :=
    fun _ => (effective_migrating hsettings hstarted).trans (instant 16000).le_max
  refine ⟨s, view, hview, fun key => ?_⟩
  rcases hsecondary heffect key (instant 16000) with ⟨hnot, _⟩ | ⟨_, hreplicas⟩
  · cases hshadowing.symm.trans hnot
  · exact hreplicas

/-- A transaction in the last second that can be represented. -/
def lastSecond : Env :=
  { transaction 99 0 with timestamp := Migration.maxTimestamp, timestamp_lt := by decide }

/-- A migration started then is accepted, and its start plus the latency is out of range. -/
theorem secondaryReplicaSet_overflows :
    ∃ (w : World Settings Unit) (task : Task Settings Unit),
      Contract.initializeCluster (transaction 99 10) ⟨100, 5, [0]⟩
        ((List.range 6).map fun i => ⟨BitVec.ofNat 160 (i + 1), [0]⟩) = .ok sixOperators ∧
      Run (World.Step usualSettings) ⟨⟨sixOperators, [], []⟩, none, []⟩ w ∧ w.task = some task ∧
      ∀ hash key now, task.view.secondaryReplicaSet hash key now = .error .timeOutOfRange := by
  have hsnapshot : (snapshot usualSettings
      (after lastSecond (.startMigration ⟨fill 5, 0⟩) sixOperators).1).toOption.map (fun view =>
        (view.migration.isInProgress, view.effectiveAt view.migration.startedAt)) =
      some (true, maxNanos + 4000000001) := by
    decide +kernel
  obtain ⟨view, hview, hobserved⟩ := Option.map_eq_some_iff.mp hsnapshot
  obtain ⟨hprogress, heffective⟩ := Prod.mk.inj hobserved
  rw [toOption_eq_some] at hview
  have hrun := run_connected lastSecond (.startMigration ⟨fill 5, 0⟩) (by decide +kernel) hview
  have hpanics : ¬ view.StartTakesEffect := by
    intro heffect
    have hle := heffect hprogress
    rw [heffective] at hle
    omega
  exact ⟨_, ⟨view, .streaming⟩, Contract.initialize_sixOperators, hrun, rfl,
    View.secondaryReplicaSet_panics hpanics⟩

end Chain

end Cluster
end Wcn
