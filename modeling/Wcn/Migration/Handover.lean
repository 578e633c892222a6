import Wcn.Lib.Majority
import Wcn.Cluster.Routing
import Wcn.Replication.Coordinator

/-!
# Wcn.Migration.Handover

Which operator hands a shard over to which, when a migration changes its replica set.

* `shardSource` — every operator works out by itself where it pulls a shard from: the one at its own
  place among the added operators stands at the same place among the removed ones.
* `shardTransfers` — the shards an operator pulls, of all shards of the two keyspaces.
* `handover_keeps_majorities` — these choices fit together: every removed operator is pulled from by
  one added operator. Records are therefore on as many replicas as before.
-/

namespace Wcn
namespace Migration

open Lib Cluster
open Contract (Address)
open Sharding (ShardId)

variable {D R : Type}

/-- The operators that are in `a`, but not in `b`. -/
def replicaSetDifference (a b : List (NodeOperator D)) : List (NodeOperator D) :=
  a.filter fun operator => !b.any (·.id = operator.id)

/-- The operator to pull a shard from; none if the shard is not new to this operator. -/
def shardSource (nodeOperatorId : Address) (old new : List (NodeOperator D)) :
    Except Panic (Option (NodeOperator D)) :=
  let addedOperators := replicaSetDifference new old
  match addedOperators.findIdx? (·.id = nodeOperatorId) with
  | none => .ok none
  | some idx =>
    let removedOperators := replicaSetDifference old new
    match removedOperators[idx]? with
    | some source => .ok (some source)
    | none => .error .indexOutOfBounds

/-- What `transfer_data` pulls: each shard that is new to this operator, with its source. -/
def shardTransfers (nodeOperatorId : Address)
    (primaryShards secondaryShards : List (ShardId × List (NodeOperator D))) :
    Except Panic (List (ShardId × NodeOperator D)) := do
  let transfers ← (primaryShards.zip secondaryShards).mapM fun shard => do
    let source ← shardSource nodeOperatorId shard.1.2 shard.2.2
    .ok (source.map (shard.1.1, ·))
  .ok transfers.reduceOption

/-- `keyspace::ReplicaSet` of different operators. -/
structure ReplicaSet (D : Type) where
  operators : List (NodeOperator D)
  length_operators : operators.length = replicationFactor
  nodup : (operators.map NodeOperator.id).Nodup

/-! ## Differences -/

section Difference

variable {a b : List (NodeOperator D)}

theorem map_id_replicaSetDifference (a b : List (NodeOperator D)) :
    (replicaSetDifference a b).map NodeOperator.id =
      (a.map NodeOperator.id).filter (· ∉ b.map NodeOperator.id) := by
  rw [List.filter_map]
  refine congrArg (List.map _) (List.filter_congr fun operator _ => ?_)
  rw [Bool.eq_iff_iff]
  simp

theorem mem_map_replicaSetDifference {id : Address} :
    id ∈ (replicaSetDifference a b).map NodeOperator.id ↔
      id ∈ a.map NodeOperator.id ∧ id ∉ b.map NodeOperator.id := by
  rw [map_id_replicaSetDifference, List.mem_filter, decide_eq_true_iff]

theorem nodup_replicaSetDifference (h : (a.map NodeOperator.id).Nodup) :
    ((replicaSetDifference a b).map NodeOperator.id).Nodup := by
  rw [map_id_replicaSetDifference]
  exact h.filter _

/-- Operators stand at one place only. -/
theorem findIdx?_id {l : List (NodeOperator D)} (hnodup : (l.map NodeOperator.id).Nodup) {i : Nat}
    {operator : NodeOperator D} (h : l[i]? = some operator) :
    l.findIdx? (·.id = operator.id) = some i := by
  obtain ⟨hi, rfl⟩ := List.getElem?_eq_some_iff.mp h
  refine List.findIdx?_eq_some_iff_getElem.mpr ⟨hi, decide_eq_true rfl, fun j hj hid => ?_⟩
  have hsame : (l.map NodeOperator.id)[j]? = (l.map NodeOperator.id)[i]? := by
    rw [List.getElem?_map, List.getElem?_map, h, List.getElem?_eq_getElem (hj.trans hi)]
    exact congrArg some (of_decide_eq_true hid)
  have hlt : j < (l.map NodeOperator.id).length := by
    rw [List.length_map]
    exact hj.trans hi
  exact Nat.ne_of_lt hj ((List.getElem?_inj hlt hnodup).mp hsame)

end Difference

/-! ## Sources -/

section Sources

variable (old new : ReplicaSet D)

theorem length_replicaSetDifference :
    (replicaSetDifference new.operators old.operators).length =
      (replicaSetDifference old.operators new.operators).length := by
  have hlength : (new.operators.map NodeOperator.id).length =
      (old.operators.map NodeOperator.id).length := by
    rw [List.length_map, List.length_map, new.length_operators, old.length_operators]
  have hexchange := length_exchange old.nodup new.nodup hlength
  rwa [← map_id_replicaSetDifference, ← map_id_replicaSetDifference, List.length_map,
    List.length_map] at hexchange

variable {old new}

/-- The operator at a place among the added ones pulls from the one at this place among the removed
ones. -/
theorem shardSource_getElem? {i : Nat} {added : NodeOperator D}
    (h : (replicaSetDifference new.operators old.operators)[i]? = some added) :
    ∃ source, (replicaSetDifference old.operators new.operators)[i]? = some source ∧
      shardSource added.id old.operators new.operators = .ok (some source) := by
  have hi : i < (replicaSetDifference old.operators new.operators).length := by
    rw [← length_replicaSetDifference old new]
    exact (List.getElem?_eq_some_iff.mp h).1
  have hsource := List.getElem?_eq_getElem hi
  refine ⟨_, hsource, ?_⟩
  simp only [shardSource, findIdx?_id (nodup_replicaSetDifference new.nodup) h, hsource]

theorem shardSource_eq_none {id : Address}
    (h : id ∉ (replicaSetDifference new.operators old.operators).map NodeOperator.id) :
    shardSource id old.operators new.operators = .ok none := by
  have hnone : (replicaSetDifference new.operators old.operators).findIdx? (·.id = id) = none := by
    refine List.findIdx?_eq_none_iff.mpr fun operator hmem => decide_eq_false fun hid => h ?_
    exact hid ▸ List.mem_map_of_mem hmem
  simp only [shardSource, hnone]

/-- Nothing is out of bounds, and an operator pulls exactly the shards it joins. -/
theorem exists_shardSource (old new : ReplicaSet D) (id : Address) :
    ∃ source, shardSource id old.operators new.operators = .ok source ∧
      (source.isSome ↔
        id ∈ new.operators.map NodeOperator.id ∧ id ∉ old.operators.map NodeOperator.id) := by
  rw [← mem_map_replicaSetDifference]
  by_cases hmem : id ∈ (replicaSetDifference new.operators old.operators).map NodeOperator.id
  · obtain ⟨added, hadded, rfl⟩ := List.mem_map.mp hmem
    obtain ⟨i, hi⟩ := List.mem_iff_getElem?.mp hadded
    obtain ⟨source, _, hsource⟩ := shardSource_getElem? hi
    exact ⟨some source, hsource, iff_of_true rfl hmem⟩
  · exact ⟨none, shardSource_eq_none hmem, iff_of_false Bool.false_ne_true hmem⟩

/-- Every removed operator is the source of one added operator. -/
theorem existsUnique_shardSource {source : NodeOperator D}
    (h : source ∈ replicaSetDifference old.operators new.operators) :
    ∃! added, added ∈ replicaSetDifference new.operators old.operators ∧
      shardSource added.id old.operators new.operators = .ok (some source) := by
  obtain ⟨i, hi⟩ := List.mem_iff_getElem?.mp h
  have hlt : i < (replicaSetDifference new.operators old.operators).length := by
    rw [length_replicaSetDifference old new]
    exact (List.getElem?_eq_some_iff.mp hi).1
  have hadded := List.getElem?_eq_getElem hlt
  obtain ⟨source', hi', hsource⟩ := shardSource_getElem? hadded
  cases hi.symm.trans hi'
  refine ⟨_, ⟨List.getElem_mem hlt, hsource⟩, fun other ⟨hmem, hother⟩ => ?_⟩
  -- the removed operators stand at one place, too
  obtain ⟨j, hj⟩ := List.mem_iff_getElem?.mp hmem
  obtain ⟨source', hj', hsource'⟩ := shardSource_getElem? hj
  cases hother.symm.trans hsource'
  have hplace := findIdx?_id (nodup_replicaSetDifference old.nodup) hi
  cases hplace.symm.trans (findIdx?_id (nodup_replicaSetDifference old.nodup) hj')
  exact Option.some.inj (hj.symm.trans hadded)

/-- What holds of every added operator and its source holds of the two differences place by place. -/
theorem forall₂_of_shardSource {P : Address → Address → Prop}
    (h : ∀ added ∈ replicaSetDifference new.operators old.operators, ∀ source,
      shardSource added.id old.operators new.operators = .ok (some source) → P added.id source.id) :
    List.Forall₂ P
      ((new.operators.map NodeOperator.id).filter (· ∉ old.operators.map NodeOperator.id))
      ((old.operators.map NodeOperator.id).filter (· ∉ new.operators.map NodeOperator.id)) := by
  rw [← map_id_replicaSetDifference, ← map_id_replicaSetDifference, List.forall₂_map_left_iff,
    List.forall₂_map_right_iff, List.forall₂_iff_get]
  refine ⟨length_replicaSetDifference old new, fun i hi hi' => ?_⟩
  obtain ⟨source, hsource, hpull⟩ := shardSource_getElem? (List.getElem?_eq_getElem hi)
  rw [List.getElem?_eq_getElem hi'] at hsource
  cases hsource
  exact h _ (List.getElem_mem hi) _ hpull

end Sources

/-- The handover of a shard. The operator to pull from is found without an index out of bounds, and
pulling pairs the added operators with the removed ones. If an added operator then has what its source
had and the others have what they had, each record is on as many replicas as before. -/
theorem handover_keeps_majorities (old new : ReplicaSet D) :
    (∀ id : Address, ∃ source, shardSource id old.operators new.operators = .ok source ∧
      (source.isSome ↔
        id ∈ new.operators.map NodeOperator.id ∧ id ∉ old.operators.map NodeOperator.id)) ∧
    (∀ (i : Nat) (added : NodeOperator D),
      (replicaSetDifference new.operators old.operators)[i]? = some added →
      ∃ source, (replicaSetDifference old.operators new.operators)[i]? = some source ∧
        shardSource added.id old.operators new.operators = .ok (some source)) ∧
    (∀ source ∈ replicaSetDifference old.operators new.operators,
      ∃! added, added ∈ replicaSetDifference new.operators old.operators ∧
        shardSource added.id old.operators new.operators = .ok (some source)) ∧
    ∀ before after : Address → R → Bool,
      (∀ added ∈ replicaSetDifference new.operators old.operators, ∀ source,
        shardSource added.id old.operators new.operators = .ok (some source) →
        after added.id = before source.id) →
      (∀ id ∈ old.operators.map NodeOperator.id, id ∈ new.operators.map NodeOperator.id →
        after id = before id) →
      ∀ record,
        (new.operators.countP fun operator => after operator.id record) =
          (old.operators.countP fun operator => before operator.id record) ∧
        (Replication.majorityQuorumThreshold ≤
            old.operators.countP (fun operator => before operator.id record) →
          Replication.majorityQuorumThreshold ≤
            new.operators.countP fun operator => after operator.id record) := by
  refine ⟨exists_shardSource old new, fun i added h => shardSource_getElem? h,
    fun source h => existsUnique_shardSource h, ?_⟩
  intro before after hadded hkept record
  have hcount : (new.operators.countP fun operator => after operator.id record) =
      old.operators.countP fun operator => before operator.id record := by
    have hexchange := countP_exchange old.nodup new.nodup
      (p := fun id => before id record) (q := fun id => after id record)
      (fun id hold hnew => congrFun (hkept id hold hnew) record)
      (forall₂_of_shardSource fun added hmem source hsource =>
        congrFun (hadded added hmem source hsource) record)
    rwa [List.countP_map, List.countP_map] at hexchange
  exact ⟨hcount, fun hmajority => hcount ▸ hmajority⟩

/-! ## All shards -/

section Transfers

variable {id : Address} {primary secondary : List (ShardId × List (NodeOperator D))}

/-- Whatever the replica sets are, a shard that is new to the operator has a source, unless the index is
out of bounds. -/
theorem exists_of_joins {old new : List (NodeOperator D)} {source : Option (NodeOperator D)}
    (h : shardSource id old new = .ok source) (hnew : id ∈ new.map NodeOperator.id)
    (hold : id ∉ old.map NodeOperator.id) : ∃ operator, source = some operator := by
  obtain ⟨added, hadded, hid⟩ := List.mem_map.mp (mem_map_replicaSetDifference.mpr ⟨hnew, hold⟩)
  unfold shardSource at h
  dsimp only at h
  split at h
  · next hnone =>
    have hne := List.findIdx?_eq_none_iff.mp hnone added hadded
    exact absurd hid (of_decide_eq_false hne)
  · split at h
    · next operator _ =>
      cases h
      exact ⟨operator, rfl⟩
    · cases h

theorem mem_shardTransfers {transfers : List (ShardId × NodeOperator D)}
    (h : shardTransfers id primary secondary = .ok transfers) {i : Nat} {shardId shardId' : ShardId}
    {old new : List (NodeOperator D)} (hprimary : primary[i]? = some (shardId, old))
    (hsecondary : secondary[i]? = some (shardId', new)) (hnew : id ∈ new.map NodeOperator.id)
    (hold : id ∉ old.map NodeOperator.id) : ∃ source, (shardId, source) ∈ transfers := by
  obtain ⟨found, hfound, h⟩ := bind_eq_ok.mp h
  cases h
  have hzip : (primary.zip secondary)[i]? = some ((shardId, old), (shardId', new)) :=
    List.getElem?_zip_eq_some.mpr ⟨hprimary, hsecondary⟩
  obtain ⟨transfer, htransfer, h⟩ := getElem?_mapM hfound hzip
  obtain ⟨source, hsource, h⟩ := bind_eq_ok.mp h
  cases h
  obtain ⟨operator, rfl⟩ := exists_of_joins hsource hnew hold
  exact ⟨operator, List.reduceOption_mem_iff.mpr (List.mem_of_getElem? htransfer)⟩

/-- Between the keyspaces of a view, no index is out of bounds. -/
theorem exists_shardTransfers {view : View Settings D} {old new : Keyspace} (id : Address)
    (hprimary : ∀ shard ∈ primary, view.Replicates old shard.2)
    (hsecondary : ∀ shard ∈ secondary, view.Replicates new shard.2) :
    ∃ transfers, shardTransfers id primary secondary = .ok transfers := by
  obtain ⟨found, hfound⟩ := exists_mapM (l := primary.zip secondary) (f := fun shard => do
      let source ← shardSource id shard.1.2 shard.2.2
      .ok (source.map (shard.1.1, ·))) (by
    intro shard hmem
    have hmems := List.of_mem_zip hmem
    have hold := hprimary _ hmems.1
    have hnew := hsecondary _ hmems.2
    obtain ⟨source, hsource, -⟩ := exists_shardSource ⟨shard.1.2, hold.length, hold.nodup⟩
      ⟨shard.2.2, hnew.length, hnew.nodup⟩ id
    exact ⟨_, bind_eq_ok.mpr ⟨source, hsource, rfl⟩⟩)
  exact ⟨found.reduceOption, bind_eq_ok.mpr ⟨found, hfound, rfl⟩⟩

end Transfers

end Migration
end Wcn
