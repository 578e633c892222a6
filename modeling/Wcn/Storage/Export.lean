import Wcn.Sharding
import Wcn.Storage.Engine

/-!
# Wcn.Storage.Export

Exports of ranges of positions, as `crates/rocks/src/db/migration.rs` has them, and how they divide
the database. An export turns the range into bounds on the bytes of the keys: the first position is
inclusive, the one after the last is not, and there is no upper bound after the last position of all.
Positions are stored with their highest byte first, so these bounds cut between positions, whatever
follows them in the keys.
-/

namespace Wcn
namespace Storage

open Lib Sharding

/-- `u64::checked_add(1)`. -/
def checkedSucc (position : UInt64) : Option UInt64 :=
  if position.toNat + 1 < 2 ^ 64 then some (position + 1) else none

/-- `CommonStorage::scan_by_position`. -/
def ColumnFamily.scanByPosition (self : ColumnFamily) (left right : Option UInt64) :
    List (Bytes × DataContext Bytes) :=
  self.rangeIterator (left.map positionBytes) (right.map positionBytes)

namespace Backend

/-- Entries under the name of their column family. -/
def tag (name : ColumnFamilyName) (entries : List (Bytes × DataContext Bytes)) :
    List ((ColumnFamilyName × Bytes) × DataContext Bytes) :=
  entries.map fun entry => ((name, entry.1), entry.2)

/-- What the iterators of an export yield. -/
def scanRange (self : Backend) (range : UInt64 × UInt64) :
    List ((ColumnFamilyName × Bytes) × DataContext Bytes) :=
  let start := some range.1
  let stop := checkedSucc range.2
  tag .genericString ((self.cf .genericString).scanByPosition start stop) ++
    tag .genericMap ((self.cf .genericMap).scanByPosition start stop)

/-- `RocksBackend::export`, with iterators that do not fail. -/
def exportRange (self : Backend) (range : UInt64 × UInt64) :
    List (ExportItem (ColumnFamilyName × Bytes) Bytes) :=
  (self.scanRange range).map frameItem ++ [.done (self.scanRange range).length]

/-- All stored pairs. -/
def stored (self : Backend) : List ((ColumnFamilyName × Bytes) × DataContext Bytes) :=
  tag .genericString (self.cf .genericString).toList ++ tag .genericMap (self.cf .genericMap).toList

end Backend

/-- The frames of an export. -/
def framesOf {K T : Type} (items : List (ExportItem K T)) : List (K × DataContext T) :=
  items.filterMap fun
    | .frame (.ok ⟨key, some ctx⟩) => some (key, ctx)
    | _ => none

def allShards : List ShardId := (List.range nShards).map UInt16.ofNat

/-! ## Positions -/

theorem BuiltFrom.keyPosition {key : GenericKey} {name : ColumnFamilyName} {bytes : Bytes}
    (h : BuiltFrom key name bytes) : keyPosition bytes = key.position := by
  obtain ⟨value, rfl⟩ := h.exists_value
  exact keyPosition_extKeyFromSlice key value

/-- Being below the successor, or below no bound at all, is being at most the last position. -/
theorem below_checkedSucc (position last : UInt64) :
    (∀ right, checkedSucc last = some right → position < right) ↔ position ≤ last := by
  have hposition := position.toNat_lt
  rw [checkedSucc, UInt64.le_iff_toNat_le]
  split
  · next h =>
    have hsucc : (last + 1).toNat = last.toNat + 1 := by
      rw [UInt64.toNat_add, UInt64.toNat_one, Nat.mod_eq_of_lt h]
    constructor
    · intro hlt
      have := UInt64.lt_iff_toNat_lt.mp (hlt _ rfl)
      omega
    · rintro hle right ⟨⟩
      rw [UInt64.lt_iff_toNat_lt]
      omega
  · exact iff_of_true (fun right hright => nomatch hright) (by omega)

/-- The bounds of an export cut between positions. -/
theorem within_iff {bytes : Bytes} {position : UInt64}
    (h : bytes.take keyringPositionPrefixLength = positionBytes position) (range : UInt64 × UInt64) :
    (((some range.1).map positionBytes).all (fun left => (compare left bytes).isLE) &&
        ((checkedSucc range.2).map positionBytes).all fun right => (compare bytes right).isLT) = true ↔
      range.1 ≤ position ∧ position ≤ range.2 := by
  have hlt : ∀ p : UInt64, p.toNat < 256 ^ keyringPositionPrefixLength := UInt64.toNat_lt
  rw [← List.take_append_drop keyringPositionPrefixLength bytes, h, Bool.and_eq_true,
    ← below_checkedSucc position]
  refine and_congr ?_ ?_
  · rw [Option.map_some, Option.all_some, positionBytes, positionBytes,
      isLE_compare_toBe (hlt _) (hlt _), UInt64.le_iff_toNat_le]
  · rw [Option.all_map, Option.all_eq_true]
    refine forall₂_congr fun right _ => ?_
    rw [positionBytes, positionBytes, isLT_compare_toBe (hlt _) (hlt _), UInt64.lt_iff_toNat_lt]

/-! ## Shards -/

variable {db : Backend}

/-- Every key of the database was built from a position and some data. -/
def Backend.KeysBuilt (db : Backend) : Prop :=
  db.KeysIn fun name bytes => ∃ key, BuiltFrom key name bytes

/-- So it is in every database that only the server wrote to. -/
theorem keysBuilt_executeAll (hash : Bytes → UInt64) (now : Nat) (requests : List Request) :
    (executeAll hash now Backend.empty requests).1.KeysBuilt :=
  Backend.keysIn_empty.executeAll hash now fun request _ _ _ hwritten =>
    ⟨key hash request.ns request.key, builtFrom_writtenKey hwritten⟩

/-- The bounds of an export pick the keys by their position. -/
theorem scanByPosition_eq (hbuilt : db.KeysBuilt) (name : ColumnFamilyName) (shardId : ShardId) :
    (db.cf name).scanByPosition (some shardId.keyRange.1) (checkedSucc shardId.keyRange.2) =
      (db.cf name).toList.filter fun entry => ShardId.fromKey (keyPosition entry.1) = shardId := by
  rw [ColumnFamily.scanByPosition, ColumnFamily.rangeIterator]
  refine List.filter_congr fun entry hentry => ?_
  obtain ⟨bytes, ctx⟩ := entry
  have hmem : bytes ∈ db.cf name :=
    Std.ExtTreeMap.mem_iff_isSome_getElem?.mpr
      (by rw [Std.ExtTreeMap.mem_toList_iff_getElem?_eq_some.mp hentry]; rfl)
  obtain ⟨key, hkey⟩ := hbuilt name bytes hmem
  rw [Bool.eq_iff_iff, decide_eq_true_iff, hkey.keyPosition, ← mem_keyRange]
  obtain ⟨value, rfl⟩ := hkey.exists_value
  exact within_iff (take_extKeyFromSlice key value) shardId.keyRange

theorem tag_filter (name : ColumnFamilyName) (entries : List (Bytes × DataContext Bytes))
    (p : Bytes → Bool) :
    Backend.tag name (entries.filter fun entry => p entry.1) =
      (Backend.tag name entries).filter fun entry => p entry.1.2 := by
  rw [Backend.tag, Backend.tag, List.filter_map]
  rfl

theorem scanRange_eq (hbuilt : db.KeysBuilt) (shardId : ShardId) :
    db.scanRange shardId.keyRange =
      db.stored.filter fun entry => ShardId.fromKey (keyPosition entry.1.2) = shardId := by
  rw [Backend.scanRange, Backend.stored, List.filter_append, scanByPosition_eq hbuilt,
    scanByPosition_eq hbuilt, tag_filter _ _ fun bytes => ShardId.fromKey (keyPosition bytes) = shardId,
    tag_filter _ _ fun bytes => ShardId.fromKey (keyPosition bytes) = shardId]

theorem framesOf_exportRange (db : Backend) (range : UInt64 × UInt64) :
    framesOf (db.exportRange range) = db.scanRange range := by
  have hframes : ∀ frames : List ((ColumnFamilyName × Bytes) × DataContext Bytes),
      framesOf (frames.map frameItem) = frames := fun frames => by
    rw [framesOf, List.filterMap_map]
    exact List.filterMap_some
  rw [Backend.exportRange, framesOf, List.filterMap_append, ← framesOf, hframes]
  exact List.append_nil _

theorem nodup_stored (db : Backend) : db.stored.Nodup := by
  have hnodup : ∀ name, (Backend.tag name (db.cf name).toList).Nodup := fun name => by
    refine List.Nodup.map ?_ (Std.ExtTreeMap.distinct_keys_toList.imp ?_)
    · rintro ⟨bytes, ctx⟩ ⟨bytes', ctx'⟩ h
      simpa using h
    · rintro entry _ hne rfl
      exact hne Std.ReflCmp.compare_self
  refine (hnodup .genericString).append (hnodup .genericMap) fun entry hstring hmap => ?_
  obtain ⟨_, -, rfl⟩ := List.mem_map.mp hstring
  obtain ⟨_, -, h⟩ := List.mem_map.mp hmap
  cases (Prod.ext_iff.mp (Prod.ext_iff.mp h).1).1

theorem nodup_allShards : allShards.Nodup := by
  refine List.Nodup.map_on (fun a ha b hb h => ?_) List.nodup_range
  have ha : a < 2 ^ 16 := List.mem_range.mp ha
  have hb : b < 2 ^ 16 := List.mem_range.mp hb
  have hmod := congrArg UInt16.toNat h
  rwa [UInt16.toNat_ofNat', UInt16.toNat_ofNat', Nat.mod_eq_of_lt ha, Nat.mod_eq_of_lt hb] at hmod

theorem mem_allShards (shardId : ShardId) : shardId ∈ allShards :=
  List.mem_map.mpr ⟨shardId.toNat, List.mem_range.mpr shardId.toNat_lt, UInt16.ofNat_toNat⟩

/-- The range of a shard holds the positions routed to it; its export yields the stored pairs with
these positions, each once, and their number; and the exports of all shards together yield every
stored pair once. The position of a client's key is its hash, by which the coordinator routes it. -/
theorem exports_partition (hbuilt : db.KeysBuilt) :
    (∀ (position : UInt64) (shardId : ShardId),
      shardId.keyRange.1 ≤ position ∧ position ≤ shardId.keyRange.2 ↔
        ShardId.fromKey position = shardId) ∧
    (∀ shardId : ShardId, db.exportRange shardId.keyRange =
      (db.stored.filter fun entry => ShardId.fromKey (keyPosition entry.1.2) = shardId).map frameItem ++
        [.done (db.stored.filter fun entry =>
          ShardId.fromKey (keyPosition entry.1.2) = shardId).length]) ∧
    db.stored.Nodup ∧
    (allShards.flatMap fun shardId => framesOf (db.exportRange shardId.keyRange)).Perm db.stored ∧
    (∀ key name bytes, BuiltFrom key name bytes → keyPosition bytes = key.position) ∧
    ∀ hash ns bytes, (key hash ns bytes).position = hash bytes := by
  refine ⟨fun position shardId => mem_keyRange shardId position, fun shardId => ?_, nodup_stored db, ?_,
    fun key name bytes h => h.keyPosition, fun hash ns bytes => rfl⟩
  · rw [Backend.exportRange, scanRange_eq hbuilt]
  · have hframes : ∀ shardId ∈ allShards, framesOf (db.exportRange shardId.keyRange) =
        db.stored.filter fun entry => ShardId.fromKey (keyPosition entry.1.2) = shardId :=
      fun shardId _ => by rw [framesOf_exportRange, scanRange_eq hbuilt]
    rw [List.flatMap_congr hframes]
    exact flatMap_filter_perm _ nodup_allShards fun entry _ => mem_allShards _

/-- The export of the last shard, which has no upper bound, with one pair at the last position. -/
theorem exports_partition_last :
    (executeAll (fun _ => 18446744073709551615) 40 Backend.empty
      [⟨⟨Vector.replicate 21 1⟩, [5], .set ⟨[7], 50, 3⟩⟩]).1.exportRange (ShardId.keyRange 65535) =
    [frameItem ((.genericString, List.replicate 8 255 ++ [0, 0, 0, 23, 0] ++ List.replicate 21 1 ++ [5]),
      ⟨.some [7], 50, some 3, 0⟩), .done 1] :=
  ((exports_partition (keysBuilt_executeAll _ _ _)).2.1 65535).trans (by rfl)

end Storage
end Wcn
