import Wcn.Lib.Outcomes
import Wcn.Lib.Ranking

/-!
# Wcn.Sharding

The `sharding` crate: a space of keys is divided into shards, and every shard is assigned to
replicas by rendezvous hashing.

* `prioritize` — scores the nodes of the queue for a shard and sorts it. Scores are hashes, with the
  hash function as a parameter; nodes of equal scores stand in their own order.
* `Keyspace.new` — one queue serves all shards, resorted for each of them. A shard gets the first
  nodes that its replication strategy finds suitable.
* `Precedes`, `accepted` — rendezvous hashing itself: the order of the nodes for a shard, and those
  that a strategy accepts of the nodes it is offered.
* `new_eq` — the loops compute just that, from the queue in whatever order it is.
-/

namespace Wcn
namespace Sharding

open Lib

variable {N σ : Type}

/-- The first two bytes of a key, which identify its shard. -/
abbrev ShardId := UInt16

def ShardId.fromKey (key : UInt64) : ShardId := (key >>> 48).toUInt16

/-- The first and the last key of a shard. -/
def ShardId.keyRange (self : ShardId) : UInt64 × UInt64 :=
  let start : UInt64 := self.toUInt64 <<< 48
  let last : UInt64 := if self = 65535 then 18446744073709551615 else ((self.toUInt64 + 1) <<< 48) - 1
  (start, last)

inductive Error where
  | invalidNodesCount (replicationFactor : Nat)
  | incompleteReplicaSet
deriving DecidableEq

/-- How the strategy of one shard starts, and what it says about a node. -/
structure ReplicationStrategy (N σ : Type) where
  build : σ
  isSuitableReplica : σ → N → Bool × σ

def defaultReplicationStrategy : ReplicationStrategy N Unit := ⟨(), fun _ _ => (true, ())⟩

structure Keyspace (N : Type) where
  nodesCount : Nat
  shards : List (List N)

/-- `u16::MAX as usize + 1`. -/
def nShards : Nat := 2 ^ 16

/-- The order of scored nodes. -/
def Prior [LinearOrder N] (a b : UInt64 × N) : Prop := a.1 < b.1 ∨ (a.1 = b.1 ∧ a.2 ≤ b.2)

instance [LinearOrder N] (a b : UInt64 × N) : Decidable (Prior a b) :=
  inferInstanceAs (Decidable (_ ∨ _))

def prioritize [LinearOrder N] (hash : N → Nat → UInt64) (shardIdx : Nat)
    (nodePriorityQueue : List (UInt64 × N)) : List (UInt64 × N) :=
  (nodePriorityQueue.map fun entry => (hash entry.2 shardIdx, entry.2)).insertionSort Prior

/-- Moves the cursor past the next suitable node. The list is the queue from the cursor on. -/
def nextReplica (strategy : ReplicationStrategy N σ) : σ → List N → Option (N × σ × List N)
  | _, [] => none
  | state, node :: queue =>
    match strategy.isSuitableReplica state node with
    | (true, state) => some (node, state, queue)
    | (false, state) => nextReplica strategy state queue

/-- Fills the replicas of one shard. -/
def selectReplicas (strategy : ReplicationStrategy N σ) : Nat → σ → List N → Except Error (List N)
  | 0, _, _ => .ok []
  | count + 1, state, queue =>
    match nextReplica strategy state queue with
    | none => .error .incompleteReplicaSet
    | some (node, state, queue) => do
      let replicas ← selectReplicas strategy count state queue
      .ok (node :: replicas)

/-- The loop over the shards. -/
def assignShards [LinearOrder N] (hash : N → Nat → UInt64) (strategy : ReplicationStrategy N σ)
    (replicationFactor : Nat) : List Nat → List (UInt64 × N) → Except Error (List (List N))
  | [], _ => .ok []
  | shardIdx :: shardIdxs, nodePriorityQueue => do
    let nodePriorityQueue := prioritize hash shardIdx nodePriorityQueue
    let replicas ← selectReplicas strategy replicationFactor strategy.build
      (nodePriorityQueue.map Prod.snd)
    let shards ← assignShards hash strategy replicationFactor shardIdxs nodePriorityQueue
    .ok (replicas :: shards)

namespace Keyspace

def new [LinearOrder N] (hash : N → Nat → UInt64) (strategy : ReplicationStrategy N σ)
    (replicationFactor : Nat) (nodes : List N) : Except Error (Keyspace N) :=
  let nodes := nodes.dedup
  if nodes.length < replicationFactor then
    .error (.invalidNodesCount replicationFactor)
  else do
    let shards ← assignShards hash strategy replicationFactor (List.range nShards)
      (nodes.map fun node => (0, node))
    .ok ⟨nodes.length, shards⟩

/-- No result means an index out of bounds. -/
def shardReplicas (self : Keyspace N) (shardId : ShardId) : Option (List N) :=
  self.shards[shardId.toNat]?

/-- `shards()`, the replicas of all shards. -/
def iterShards (self : Keyspace N) : List (ShardId × List N) :=
  self.shards.mapIdx fun idx replicas => (UInt16.ofNat idx, replicas)

end Keyspace

theorem getElem?_iterShards (keyspace : Keyspace N) (shardId : ShardId) :
    keyspace.iterShards[shardId.toNat]? = (keyspace.shardReplicas shardId).map (shardId, ·) := by
  rw [Keyspace.iterShards, List.getElem?_mapIdx, UInt16.ofNat_toNat]
  rfl

/-! ## The keys of one shard -/

theorem toNat_fromKey (key : UInt64) : (ShardId.fromKey key).toNat = key.toNat / 2 ^ 48 := by
  have h := key.toNat_lt
  rw [ShardId.fromKey, UInt64.toNat_toUInt16, UInt64.toNat_shiftRight]
  rw [show (48 : UInt64).toNat % 64 = 48 from rfl, Nat.shiftRight_eq_div_pow]
  omega

theorem toNat_keyRange (shardId : ShardId) :
    shardId.keyRange.1.toNat = shardId.toNat * 2 ^ 48 ∧
    shardId.keyRange.2.toNat = shardId.toNat * 2 ^ 48 + (2 ^ 48 - 1) := by
  have h := shardId.toNat_lt
  have hstart : ∀ n : Nat, n < 2 ^ 16 → n <<< 48 % 2 ^ 64 = n * 2 ^ 48 := by
    intro n hn
    rw [Nat.shiftLeft_eq]
    omega
  constructor
  · simp only [ShardId.keyRange, UInt64.toNat_shiftLeft, UInt16.toNat_toUInt64]
    exact hstart _ h
  · by_cases hlast : shardId = 65535
    · subst hlast
      rfl
    · have hne : shardId.toNat ≠ 65535 := fun heq => hlast (UInt16.toNat_inj.mp heq)
      have hend : ((shardId.toUInt64 + 1) <<< 48).toNat = (shardId.toNat + 1) * 2 ^ 48 := by
        rw [UInt64.toNat_shiftLeft, UInt64.toNat_add, UInt16.toNat_toUInt64]
        have hsum : (shardId.toNat + (1 : UInt64).toNat) % 2 ^ 64 = shardId.toNat + 1 := by
          rw [show (1 : UInt64).toNat = 1 from rfl]
          omega
        rw [hsum]
        exact hstart _ (by omega)
      rw [ShardId.keyRange]
      dsimp only
      rw [if_neg hlast, UInt64.toNat_sub_of_le _ _ ?_, hend]
      · rw [show (1 : UInt64).toNat = 1 from rfl]
        omega
      · rw [UInt64.le_iff_toNat_le, hend, show (1 : UInt64).toNat = 1 from rfl]
        omega

/-- The keys between the bounds of a shard are those routed to it. -/
theorem mem_keyRange (shardId : ShardId) (key : UInt64) :
    shardId.keyRange.1 ≤ key ∧ key ≤ shardId.keyRange.2 ↔ ShardId.fromKey key = shardId := by
  obtain ⟨hstart, hend⟩ := toNat_keyRange shardId
  rw [UInt64.le_iff_toNat_le, UInt64.le_iff_toNat_le, hstart, hend, ← UInt16.toNat_inj,
    toNat_fromKey]
  omega

/-! ## The replicas of one shard -/

/-- The nodes a strategy accepts, offered to it one after the other. -/
def accepted (strategy : ReplicationStrategy N σ) : σ → List N → List N
  | _, [] => []
  | state, node :: nodes =>
    match strategy.isSuitableReplica state node with
    | (true, state) => node :: accepted strategy state nodes
    | (false, state) => accepted strategy state nodes

section Replicas

variable {strategy : ReplicationStrategy N σ}

theorem accepted_sublist (state : σ) (nodes : List N) :
    (accepted strategy state nodes).Sublist nodes := by
  induction nodes generalizing state with
  | nil => exact .slnil
  | cons node nodes ih =>
    rw [accepted]
    split
    · exact (ih _).cons_cons node
    · exact (ih _).cons node

/-- The default strategy accepts everything. -/
theorem accepted_default (nodes : List N) : accepted defaultReplicationStrategy () nodes = nodes := by
  induction nodes with
  | nil => rfl
  | cons node nodes ih => exact congrArg (node :: ·) ih

theorem nextReplica_eq_none {state : σ} {queue : List N}
    (h : nextReplica strategy state queue = none) : accepted strategy state queue = [] := by
  induction queue generalizing state with
  | nil => rfl
  | cons node queue ih =>
    rw [nextReplica] at h
    rw [accepted]
    split at h
    · cases h
    · exact ih h

theorem nextReplica_eq_some {state state' : σ} {queue rest : List N} {node : N}
    (h : nextReplica strategy state queue = some (node, state', rest)) :
    accepted strategy state queue = node :: accepted strategy state' rest := by
  induction queue generalizing state with
  | nil => cases h
  | cons first queue ih =>
    rw [nextReplica] at h
    rw [accepted]
    split at h
    · cases h
      rfl
    · exact ih h

/-- A shard gets the first nodes that its strategy accepts. -/
theorem selectReplicas_eq (count : Nat) (state : σ) (queue : List N) :
    selectReplicas strategy count state queue =
      if count ≤ (accepted strategy state queue).length then
        .ok ((accepted strategy state queue).take count)
      else
        .error .incompleteReplicaSet := by
  induction count generalizing state queue with
  | zero => rfl
  | succ count ih =>
    rw [selectReplicas]
    cases hnext : nextReplica strategy state queue with
    | none =>
      rw [nextReplica_eq_none hnext]
      rfl
    | some next =>
      obtain ⟨node, state', rest⟩ := next
      rw [nextReplica_eq_some hnext]
      dsimp only
      rw [ih, List.length_cons]
      by_cases hcount : count ≤ (accepted strategy state' rest).length
      · rw [if_pos hcount, if_pos (Nat.succ_le_succ hcount)]
        rfl
      · rw [if_neg hcount, if_neg fun h => hcount (Nat.le_of_succ_le_succ h)]
        rfl

/-- The loop stops offering nodes once it has enough. -/
theorem exists_offered {count : Nat} {state : σ} {nodes : List N}
    (h : count ≤ (accepted strategy state nodes).length) :
    ∃ offered, offered <+: nodes ∧
      accepted strategy state offered = (accepted strategy state nodes).take count := by
  induction nodes generalizing state count with
  | nil => exact ⟨[], List.prefix_refl [], List.take_nil.symm⟩
  | cons node nodes ih =>
    cases count with
    | zero => exact ⟨[], List.nil_prefix, rfl⟩
    | succ count =>
      rw [accepted] at h ⊢
      split at h
      · next state' hnode =>
        obtain ⟨offered, hprefix, heq⟩ := ih (Nat.le_of_succ_le_succ h)
        refine ⟨node :: offered, List.cons_prefix_cons.mpr ⟨rfl, hprefix⟩, ?_⟩
        rw [accepted, hnode, List.take_succ_cons]
        exact congrArg (node :: ·) heq
      · next state' hnode =>
        obtain ⟨offered, hprefix, heq⟩ := ih h
        refine ⟨node :: offered, List.cons_prefix_cons.mpr ⟨rfl, hprefix⟩, ?_⟩
        rw [accepted, hnode]
        exact heq

end Replicas

/-! ## All shards -/

section Shards

variable [LinearOrder N]

/-- The order in which a shard is offered the nodes: ascending by score, then by node. -/
def Precedes (hash : N → Nat → UInt64) (shardIdx : Nat) (a b : N) : Prop :=
  Prior (hash a shardIdx, a) (hash b shardIdx, b)

instance (hash : N → Nat → UInt64) (shardIdx : Nat) : DecidableRel (Precedes hash shardIdx) :=
  fun a b => inferInstanceAs (Decidable (Prior (hash a shardIdx, a) (hash b shardIdx, b)))

section Order

variable {hash : N → Nat → UInt64} {shardIdx : Nat}

theorem precedes_iff {a b : N} :
    Precedes hash shardIdx a b ↔ (hash a shardIdx).toNat < (hash b shardIdx).toNat ∨
      ((hash a shardIdx).toNat = (hash b shardIdx).toNat ∧ a ≤ b) := by
  rw [Precedes, Prior, UInt64.lt_iff_toNat_lt, ← UInt64.toNat_inj]

instance : Std.Total (Precedes hash shardIdx) where
  total a b := by
    rw [precedes_iff, precedes_iff]
    rcases Nat.lt_trichotomy (hash a shardIdx).toNat (hash b shardIdx).toNat with h | h | h
    · exact .inl (.inl h)
    · exact (le_total a b).imp (fun hle => .inr ⟨h, hle⟩) fun hle => .inr ⟨h.symm, hle⟩
    · exact .inr (.inl h)

instance : IsTrans N (Precedes hash shardIdx) where
  trans a b c := by
    rw [precedes_iff, precedes_iff, precedes_iff]
    rintro (hab | ⟨hab, hle⟩) (hbc | ⟨hbc, hle'⟩)
    · exact .inl (hab.trans hbc)
    · exact .inl (hbc ▸ hab)
    · exact .inl (hab ▸ hbc)
    · exact .inr ⟨hab.trans hbc, hle.trans hle'⟩

instance : Std.Antisymm (Precedes hash shardIdx) where
  antisymm a b := by
    rw [precedes_iff, precedes_iff]
    rintro (hab | ⟨hab, hle⟩) (hba | ⟨hba, hle'⟩)
    · exact absurd hab (Nat.lt_asymm hba)
    · exact absurd hab (Nat.ne_of_lt hab hba.symm).elim
    · exact absurd hab.symm (Nat.ne_of_lt hba)
    · exact le_antisymm hle hle'

end Order

/-- The nodes of a queue in the order of a shard. The scores left from the shard before do not
matter, nor does the order they left the queue in. -/
theorem map_snd_prioritize (hash : N → Nat → UInt64) (shardIdx : Nat)
    (queue : List (UInt64 × N)) :
    (prioritize hash shardIdx queue).map Prod.snd =
      (queue.map Prod.snd).insertionSort (Precedes hash shardIdx) := by
  have hscored : (queue.map fun entry => (hash entry.2 shardIdx, entry.2)) =
      (queue.map Prod.snd).map fun node => (hash node shardIdx, node) := by
    rw [List.map_map]
    rfl
  rw [prioritize, hscored, ← List.map_insertionSort (Precedes hash shardIdx) Prior _ _
    fun a _ b _ => Iff.rfl, List.map_map]
  exact List.map_id _

/-- What one shard gets of the nodes. -/
def shardOf (hash : N → Nat → UInt64) (strategy : ReplicationStrategy N σ) (count : Nat)
    (nodes : List N) (shardIdx : Nat) : Except Error (List N) :=
  selectReplicas strategy count strategy.build (nodes.insertionSort (Precedes hash shardIdx))

theorem shardOf_perm {nodes nodes' : List N} (h : nodes.Perm nodes') (hash : N → Nat → UInt64)
    (strategy : ReplicationStrategy N σ) (count shardIdx : Nat) :
    shardOf hash strategy count nodes shardIdx = shardOf hash strategy count nodes' shardIdx := by
  rw [shardOf, shardOf, insertionSort_perm h]

/-- The shards do not influence each other through the queue they share. -/
theorem assignShards_eq (hash : N → Nat → UInt64) (strategy : ReplicationStrategy N σ) (count : Nat)
    (shardIdxs : List Nat) (queue : List (UInt64 × N)) :
    assignShards hash strategy count shardIdxs queue =
      shardIdxs.mapM (shardOf hash strategy count (queue.map Prod.snd)) := by
  induction shardIdxs generalizing queue with
  | nil => rfl
  | cons shardIdx shardIdxs ih =>
    have hperm : ((prioritize hash shardIdx queue).map Prod.snd).Perm (queue.map Prod.snd) := by
      rw [map_snd_prioritize]
      exact List.perm_insertionSort _ _
    have hrest : shardOf hash strategy count ((prioritize hash shardIdx queue).map Prod.snd) =
        shardOf hash strategy count (queue.map Prod.snd) :=
      funext fun idx => shardOf_perm hperm hash strategy count idx
    rw [assignShards, List.mapM_cons, ih, hrest, map_snd_prioritize]
    rfl

omit [LinearOrder N] in
theorem map_snd_unscored (nodes : List N) :
    (nodes.map fun node => ((0 : UInt64), node)).map Prod.snd = nodes := by
  rw [List.map_map]
  exact List.map_id nodes

theorem new_eq (hash : N → Nat → UInt64) (strategy : ReplicationStrategy N σ) (count : Nat)
    (nodes : List N) :
    Keyspace.new hash strategy count nodes =
      if nodes.dedup.length < count then
        .error (.invalidNodesCount count)
      else
        ((List.range nShards).mapM (shardOf hash strategy count nodes.dedup)).map
          (⟨nodes.dedup.length, ·⟩) := by
  unfold Keyspace.new
  dsimp only
  rw [assignShards_eq, map_snd_unscored]
  generalize (List.range nShards).mapM (shardOf hash strategy count nodes.dedup) = shards
  cases shards <;> rfl

theorem new_eq_ok {hash : N → Nat → UInt64} {strategy : ReplicationStrategy N σ} {count : Nat}
    {nodes : List N} {keyspace : Keyspace N} :
    Keyspace.new hash strategy count nodes = .ok keyspace ↔
      count ≤ nodes.dedup.length ∧ keyspace.nodesCount = nodes.dedup.length ∧
      (List.range nShards).mapM (shardOf hash strategy count nodes.dedup) = .ok keyspace.shards := by
  rw [new_eq]
  split
  · next hlt =>
    constructor
    · intro h
      cases h
    · rintro ⟨hle, -⟩
      exact absurd hlt (Nat.not_lt.mpr hle)
  · next hnot =>
    rw [map_eq_ok]
    constructor
    · rintro ⟨shards, hshards, rfl⟩
      exact ⟨Nat.le_of_not_lt hnot, rfl, hshards⟩
    · rintro ⟨-, hcount, hshards⟩
      exact ⟨_, hshards, by rw [← hcount]⟩

section New

variable {hash : N → Nat → UInt64} {strategy : ReplicationStrategy N σ} {count : Nat}
  {nodes : List N} {keyspace : Keyspace N}

theorem shardOf_eq_ok {shardIdx : Nat} {replicas : List N} :
    shardOf hash strategy count nodes shardIdx = .ok replicas ↔
      count ≤ (accepted strategy strategy.build
        (nodes.insertionSort (Precedes hash shardIdx))).length ∧
      replicas = (accepted strategy strategy.build
        (nodes.insertionSort (Precedes hash shardIdx))).take count := by
  rw [shardOf, selectReplicas_eq]
  split
  · next hle => exact ⟨fun h => ⟨hle, (Except.ok.inj h).symm⟩, fun h => congrArg _ h.2.symm⟩
  · next hlt => exact ⟨fun h => (nomatch h), fun h => absurd h.1 hlt⟩

theorem shardReplicas_new (h : Keyspace.new hash strategy count nodes = .ok keyspace)
    (shardId : ShardId) : ∃ replicas, keyspace.shardReplicas shardId = some replicas ∧
      shardOf hash strategy count nodes.dedup shardId.toNat = .ok replicas := by
  obtain ⟨-, -, hshards⟩ := new_eq_ok.mp h
  refine getElem?_mapM hshards (List.getElem?_eq_some_iff.mpr ⟨?_, List.getElem_range _⟩)
  rw [List.length_range]
  exact shardId.toNat_lt

theorem mem_iterShards (h : Keyspace.new hash strategy count nodes = .ok keyspace)
    {shard : ShardId × List N} (hmem : shard ∈ keyspace.iterShards) :
    keyspace.shardReplicas shard.1 = some shard.2 := by
  obtain ⟨idx, hidx, rfl⟩ := List.mem_mapIdx.mp hmem
  have hlt : idx < nShards := by
    obtain ⟨-, -, hshards⟩ := new_eq_ok.mp h
    rwa [← (mapM_eq_ok.mp hshards).length_eq, List.length_range] at hidx
  rw [Keyspace.shardReplicas, UInt16.toNat_ofNat', Nat.mod_eq_of_lt (show idx < 2 ^ 16 from hlt)]
  exact List.getElem?_eq_getElem hidx

/-- The replicas of a shard are distinct nodes, as many as asked for. -/
theorem new_ok (h : Keyspace.new hash strategy count nodes = .ok keyspace) (shardId : ShardId) :
    ∃ replicas, keyspace.shardReplicas shardId = some replicas ∧ replicas.length = count ∧
      replicas.Nodup ∧ ∀ node ∈ replicas, node ∈ nodes := by
  obtain ⟨replicas, hreplicas, hshard⟩ := shardReplicas_new h shardId
  obtain ⟨hcount, rfl⟩ := shardOf_eq_ok.mp hshard
  have hperm := List.perm_insertionSort (Precedes hash shardId.toNat) nodes.dedup
  have hsub : ((accepted strategy strategy.build
      (nodes.dedup.insertionSort (Precedes hash shardId.toNat))).take count).Sublist
        (nodes.dedup.insertionSort (Precedes hash shardId.toNat)) :=
    (List.take_sublist count _).trans (accepted_sublist _ _)
  refine ⟨_, hreplicas, ?_, ?_, ?_⟩
  · rw [List.length_take, Nat.min_eq_left hcount]
  · exact (hperm.nodup_iff.mpr nodes.nodup_dedup).sublist hsub
  · intro node hnode
    exact List.mem_dedup.mp (hperm.mem_iff.mp (hsub.subset hnode))

theorem new_eq_error : (∃ e, Keyspace.new hash strategy count nodes = .error e) ↔
    nodes.dedup.length < count ∨ ∃ shardIdx < nShards, (accepted strategy strategy.build
      (nodes.dedup.insertionSort (Precedes hash shardIdx))).length < count := by
  rw [new_eq]
  constructor
  · rintro ⟨e, h⟩
    split at h
    · next hlt => exact .inl hlt
    · next hnot =>
      cases hshards : (List.range nShards).mapM (shardOf hash strategy count nodes.dedup) with
      | ok shards =>
        rw [hshards] at h
        cases h
      | error e' =>
        obtain ⟨shardIdx, hmem, herr⟩ := mapM_eq_error hshards
        refine .inr ⟨shardIdx, List.mem_range.mp hmem, Nat.lt_of_not_le fun hle => ?_⟩
        rw [shardOf_eq_ok.mpr ⟨hle, rfl⟩] at herr
        cases herr
  · intro h
    by_cases hlt : nodes.dedup.length < count
    · exact ⟨_, if_pos hlt⟩
    · obtain ⟨shardIdx, hmem, hfew⟩ := h.resolve_left hlt
      rw [if_neg hlt]
      cases hshards : (List.range nShards).mapM (shardOf hash strategy count nodes.dedup) with
      | error e => exact ⟨e, rfl⟩
      | ok shards =>
        have hidx : (List.range nShards)[shardIdx]? = some shardIdx :=
          List.getElem?_eq_some_iff.mpr ⟨by rwa [List.length_range], List.getElem_range _⟩
        obtain ⟨_, -, hshard⟩ := getElem?_mapM hshards hidx
        exact absurd (shardOf_eq_ok.mp hshard).1 (Nat.not_le.mpr hfew)

/-- With the default strategy, enough nodes are all it takes. -/
theorem exists_new (hash : N → Nat → UInt64) (h : count ≤ nodes.dedup.length) :
    ∃ keyspace, Keyspace.new hash defaultReplicationStrategy count nodes = .ok keyspace := by
  cases hnew : Keyspace.new hash defaultReplicationStrategy count nodes with
  | ok keyspace => exact ⟨keyspace, rfl⟩
  | error e =>
    rcases new_eq_error.mp ⟨e, hnew⟩ with hlt | ⟨shardIdx, -, hlt⟩
    · exact absurd hlt (Nat.not_lt.mpr h)
    · have hall := accepted_default (nodes.dedup.insertionSort (Precedes hash shardIdx))
      have hbuild : (defaultReplicationStrategy (N := N)).build = () := rfl
      rw [hbuild, hall, List.length_insertionSort] at hlt
      exact absurd hlt (Nat.not_lt.mpr h)

theorem new_congr {nodes' : List N} (h : ∀ node, node ∈ nodes' ↔ node ∈ nodes) :
    Keyspace.new hash strategy count nodes' = Keyspace.new hash strategy count nodes := by
  have hperm : nodes'.dedup.Perm nodes.dedup := by
    refine (List.perm_ext_iff_of_nodup nodes'.nodup_dedup nodes.nodup_dedup).mpr fun node => ?_
    rw [List.mem_dedup, List.mem_dedup, h]
  have hshards : shardOf hash strategy count nodes'.dedup = shardOf hash strategy count nodes.dedup :=
    funext fun idx => shardOf_perm hperm hash strategy count idx
  rw [new_eq, new_eq, hshards, hperm.length_eq]

end New

/-- Sharding is rendezvous hashing, for arbitrary stateful strategies: each shard gets the first
nodes that a fresh strategy accepts of the distinct nodes in the order of the shard, which are
offered to it once each. Neither the order and repetition of the given nodes matters nor the order
in which the set of them is iterated. -/
theorem new_selects (hash : N → Nat → UInt64) (strategy : ReplicationStrategy N σ) (count : Nat)
    (nodes : List N) :
    ((∃ e, Keyspace.new hash strategy count nodes = .error e) ↔
      nodes.dedup.length < count ∨ ∃ shardIdx < nShards, (accepted strategy strategy.build
        (nodes.dedup.insertionSort (Precedes hash shardIdx))).length < count) ∧
    (∀ keyspace, Keyspace.new hash strategy count nodes = .ok keyspace →
      keyspace.shards.length = nShards ∧ ∀ shardId : ShardId, ∃ replicas,
        keyspace.shardReplicas shardId = some replicas ∧ replicas.length = count ∧
        replicas.Nodup ∧ (∀ node ∈ replicas, node ∈ nodes) ∧
        replicas = (accepted strategy strategy.build
          (nodes.dedup.insertionSort (Precedes hash shardId.toNat))).take count ∧
        ∃ offered, offered <+: nodes.dedup.insertionSort (Precedes hash shardId.toNat) ∧
          offered.Nodup ∧ accepted strategy strategy.build offered = replicas) ∧
    (∀ nodes', (∀ node, node ∈ nodes' ↔ node ∈ nodes) →
      Keyspace.new hash strategy count nodes' = Keyspace.new hash strategy count nodes) ∧
    ∀ iterated : List N, iterated.Perm nodes.dedup →
      assignShards hash strategy count (List.range nShards) (iterated.map fun node => (0, node)) =
        assignShards hash strategy count (List.range nShards)
          (nodes.dedup.map fun node => (0, node)) := by
  refine ⟨new_eq_error, ?_, fun nodes' h => new_congr h, ?_⟩
  · intro keyspace h
    obtain ⟨-, -, hshards⟩ := new_eq_ok.mp h
    refine ⟨?_, fun shardId => ?_⟩
    · rw [← (mapM_eq_ok.mp hshards).length_eq, List.length_range]
    · obtain ⟨replicas, hreplicas, hlen, hnodup, hmem⟩ := new_ok h shardId
      obtain ⟨replicas', hreplicas', hshard⟩ := shardReplicas_new h shardId
      cases hreplicas.symm.trans hreplicas'
      obtain ⟨hcount, heq⟩ := shardOf_eq_ok.mp hshard
      obtain ⟨offered, hprefix, haccepted⟩ := exists_offered hcount
      have hperm := List.perm_insertionSort (Precedes hash shardId.toNat) nodes.dedup
      refine ⟨replicas, hreplicas, hlen, hnodup, hmem, heq, offered, hprefix, ?_, ?_⟩
      · exact (hperm.nodup_iff.mpr nodes.nodup_dedup).sublist hprefix.sublist
      · rw [haccepted, heq]
  · intro iterated hperm
    rw [assignShards_eq, assignShards_eq, map_snd_unscored, map_snd_unscored]
    have hshards : shardOf hash strategy count iterated = shardOf hash strategy count nodes.dedup :=
      funext fun idx => shardOf_perm hperm hash strategy count idx
    rw [hshards]

/-! ## Resharding -/

/-- With the default strategy a shard gets the best nodes. -/
theorem shardReplicas_default (hash : N → Nat → UInt64) {count : Nat} {nodes : List N}
    (h : count ≤ nodes.dedup.length) :
    ∃ keyspace, Keyspace.new hash defaultReplicationStrategy count nodes = .ok keyspace ∧
      ∀ shardId : ShardId, keyspace.shardReplicas shardId =
        some (best (Precedes hash shardId.toNat) count nodes.dedup) := by
  obtain ⟨keyspace, hnew⟩ := exists_new hash h
  refine ⟨keyspace, hnew, fun shardId => ?_⟩
  obtain ⟨replicas, hreplicas, hshard⟩ := shardReplicas_new hnew shardId
  obtain ⟨-, rfl⟩ := shardOf_eq_ok.mp hshard
  have hall := accepted_default (nodes.dedup.insertionSort (Precedes hash shardId.toNat))
  rw [hreplicas]
  exact congrArg (fun nodes => some (nodes.take count)) hall

theorem dedup_filter_perm {a b : List N} (h : a ⊆ b) :
    (b.dedup.filter (· ∈ a)).Perm a.dedup := by
  refine (List.perm_ext_iff_of_nodup (b.nodup_dedup.filter _) a.nodup_dedup).mpr fun node => ?_
  rw [List.mem_filter, List.mem_dedup, List.mem_dedup, decide_eq_true_iff]
  exact ⟨And.right, fun hnode => ⟨h hnode, hnode⟩⟩

theorem dedup_insert_perm {a b : List N} {node : N} (hnode : node ∉ a)
    (h : ∀ x, x ∈ b ↔ x = node ∨ x ∈ a) : b.dedup.Perm (node :: a.dedup) := by
  have hnodup : (node :: a.dedup).Nodup :=
    List.nodup_cons.mpr ⟨fun hmem => hnode (List.mem_dedup.mp hmem), a.nodup_dedup⟩
  refine (List.perm_ext_iff_of_nodup b.nodup_dedup hnodup).mpr fun x => ?_
  rw [List.mem_dedup, List.mem_cons, List.mem_dedup, h]

/-- The replicas a shard gets anew, counted. -/
theorem length_moved {hash : N → Nat → UInt64} {shardIdx count : Nat} {a b : List N}
    (ha : count ≤ a.dedup.length) (hb : count ≤ b.dedup.length) :
    ((best (Precedes hash shardIdx) count b.dedup).filter
      (· ∉ best (Precedes hash shardIdx) count a.dedup)).length ≤
      (symmDiff a.toFinset b.toFinset).card := by
  have hcard := card_best_sdiff (r := Precedes hash shardIdx) a.nodup_dedup b.nodup_dedup ha hb
  have hfinset : ∀ l : List N, l.dedup.toFinset = l.toFinset := fun l =>
    Finset.ext fun x => by rw [List.mem_toFinset, List.mem_toFinset, List.mem_dedup]
  rw [hfinset, hfinset] at hcard
  refine le_trans (le_of_eq ?_) hcard
  rw [← List.toFinset_card_of_nodup ((nodup_best b.nodup_dedup count).filter _)]
  congr 1
  ext x
  rw [List.mem_toFinset, List.mem_filter, Finset.mem_sdiff, List.mem_toFinset, List.mem_toFinset,
    decide_eq_true_iff]

/-- Resharding moves as little as possible: old nodes keep their order and only drop out at the end,
one new node displaces at most the last replica, and a change of `k` nodes replaces at most `k`
replicas of a shard. -/
theorem resharding_moves_little (hash : N → Nat → UInt64) (count : Nat) (a b : List N)
    (ha : count ≤ a.dedup.length) (hb : count ≤ b.dedup.length) :
    ∃ old new, Keyspace.new hash defaultReplicationStrategy count a = .ok old ∧
      Keyspace.new hash defaultReplicationStrategy count b = .ok new ∧
      ∀ shardId : ShardId, ∃ replicas replicas', old.shardReplicas shardId = some replicas ∧
        new.shardReplicas shardId = some replicas' ∧
        (a ⊆ b → replicas'.filter (· ∈ a) <+: replicas) ∧
        (∀ node ∉ a, (∀ x, x ∈ b ↔ x = node ∨ x ∈ a) → replicas' = replicas ∨
          ∃ before after last, replicas = before ++ after ++ [last] ∧
            replicas' = before ++ node :: after) ∧
        (replicas'.filter (· ∉ replicas)).length ≤ (symmDiff a.toFinset b.toFinset).card ∧
        (replicas.filter (· ∉ replicas')).length ≤ (symmDiff a.toFinset b.toFinset).card := by
  obtain ⟨old, hold, hreplicas⟩ := shardReplicas_default hash ha
  obtain ⟨new, hnew, hreplicas'⟩ := shardReplicas_default hash hb
  refine ⟨old, new, hold, hnew, fun shardId => ?_⟩
  refine ⟨_, _, hreplicas shardId, hreplicas' shardId, ?_, ?_, length_moved ha hb, ?_⟩
  · intro hsub
    have hprefix := best_filter (r := Precedes hash shardId.toNat) (· ∈ a) count b.dedup
    rwa [best_perm (dedup_filter_perm hsub)] at hprefix
  · intro node hnode hmem
    exact best_insert (dedup_insert_perm hnode hmem) ha
  · rw [symmDiff_comm]
    exact length_moved hb ha

/-- A fourth node next to three, two replicas a shard. -/
theorem resharding_moves_little_four :
    ∃ old new, Keyspace.new (fun node _ => UInt64.ofNat (9 - node)) defaultReplicationStrategy 2
        [1, 2, 3] = .ok old ∧
      Keyspace.new (fun node _ => UInt64.ofNat (9 - node)) defaultReplicationStrategy 2
        [1, 2, 3, 4] = .ok new ∧
      ∃ replicas replicas', old.shardReplicas 0 = some replicas ∧
        new.shardReplicas 0 = some replicas' ∧ replicas'.filter (· ∈ [1, 2, 3]) <+: replicas := by
  obtain ⟨old, new, hold, hnew, hshards⟩ := resharding_moves_little
    (fun node _ => UInt64.ofNat (9 - node)) 2 [1, 2, 3] [1, 2, 3, 4] (by decide) (by decide)
  obtain ⟨replicas, replicas', hreplicas, hreplicas', hprefix, -⟩ := hshards 0
  exact ⟨old, new, hold, hnew, replicas, replicas', hreplicas, hreplicas', hprefix (by decide)⟩

end Shards

end Sharding
end Wcn
