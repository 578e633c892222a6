import Wcn.Lib.ResultStreams
import Wcn.Storage.Engine

/-!
# Wcn.Storage.Iterators

Reads of whole maps, with what can go wrong in them: `crates/rocks/src/db/types/common/iterators.rs`
and the reads in `crates/rocks/src/db/types/map.rs`. An iterator of RocksDB yields pairs of bytes or
errors, and the bytes may not deserialize.

Where nothing goes wrong these reads are those of `Wcn.Storage.Engine` (`hcard_stored`,
`scan_stored`). An error of RocksDB stands outside of the result of the deserialization, and
`flatten` drops it (`values_eq`, `records_eq`).
-/

namespace Wcn
namespace Storage

open Lib StorageApi

/-- `rocksdb::Error`. -/
structure RocksdbError where
  kind : String
  message : String
  deriving DecidableEq, Repr

def RocksdbError.into (err : RocksdbError) : RocksError := .backend err.kind err.message

abbrev KVBytes := Bytes × Bytes

namespace Iterators

/-- `KeyValueIterator`, over what the iterator of RocksDB yields. -/
def keyValueIterator (iter : List (Except RocksdbError KVBytes)) :
    List (Except RocksError KVBytes) :=
  iter.map (·.mapError RocksdbError.into)

-- `deserialize` for the contexts that are stored as values
variable (decode : Bytes → Except RocksError (DataContext Bytes)) (now : Nat)

def parseValue (data : KVBytes) : Except RocksError (Option Bytes) :=
  (decode data.2).map (·.intoPayload now)

/-- `KeyValueIterator::values`. -/
def values (iter : List (Except RocksdbError KVBytes)) : List (Except RocksError Bytes) :=
  flatten (filterMapOk (fun data => transpose (parseValue decode now data)) (keyValueIterator iter))

/-- `MapStorage::hvals`. -/
def hvals (iter : List (Except RocksdbError KVBytes)) : Except RocksError (List Bytes) :=
  collect (values decode now iter)

/-- `find_map` in `hcard`: counts up to the first error. -/
def countValues (count : Nat) : List (Except RocksError Bytes) → Except RocksError Nat
  | [] => .ok count
  | .error err :: _ => .error err
  | .ok _ :: iter => countValues (count + 1) iter

/-- `MapStorage::hcard`. -/
def hcard (iter : List (Except RocksdbError KVBytes)) : Except RocksError Nat :=
  countValues 0 (values decode now iter)

/-- `MapRecords::map`. -/
def mapRecords (data : KVBytes) : Except RocksError (Option (MapEntry Bytes)) := do
  let field ← deserialize (← splitExtKey data.1)
  let ctx ← decode data.2
  return (ctx.readRecord now).map fun record => ⟨field, record⟩

/-- The iterator that `scan` takes items from. -/
def records (iter : List (Except RocksdbError KVBytes)) :
    List (Except RocksError (MapEntry Bytes)) :=
  (flatten (mapOk (mapRecords decode now) (keyValueIterator iter))).filterMap transpose

/-- `iterators::scan`, after the iterator is made. -/
def scan (count : Nat) (cursor : Option Bytes) (iter : List (Except RocksdbError KVBytes)) :
    Except RocksError (MapPage Bytes) :=
  collectItems count [] (skipCursor cursor (records decode now iter))

/-! ## What is left of the iterator -/

theorem flatten_keyValueIterator (iter : List (Except RocksdbError KVBytes)) :
    flatten (keyValueIterator iter) = flatten iter :=
  flatten_mapError RocksdbError.into iter

theorem values_eq (iter : List (Except RocksdbError KVBytes)) :
    values decode now iter =
      (flatten iter).filterMap fun data => transpose (parseValue decode now data) := by
  rw [values, flatten_filterMapOk, flatten_keyValueIterator]

theorem records_eq (iter : List (Except RocksdbError KVBytes)) :
    records decode now iter =
      (flatten iter).filterMap fun data => transpose (mapRecords decode now data) := by
  rw [records, flatten_mapOk, flatten_keyValueIterator, List.filterMap_map]
  rfl

theorem countValues_eq (count : Nat) (iter : List (Except RocksError Bytes)) :
    countValues count iter = (collect iter).map (count + ·.length) := by
  induction iter generalizing count with
  | nil => rfl
  | cons item iter ih =>
    cases item with
    | error err => rfl
    | ok value =>
      rw [countValues, ih, collect]
      cases collect iter with
      | error err => rfl
      | ok l =>
        refine congrArg Except.ok ?_
        dsimp only
        rw [List.length_cons]
        omega

/-! ## Without errors -/

section Stored

variable {decode} {encode : DataContext Bytes → Bytes}
  (hdecode : ∀ ctx, decode (encode ctx) = .ok ctx)

include hdecode

theorem hcard_stored (cf : ColumnFamily) (key : GenericKey) :
    hcard decode now ((cf.prefixIterator (storageKey key)).map fun entry =>
      .ok (entry.1, encode entry.2)) = .ok (cf.hcard now key) := by
  have hvalues : ∀ l : List (Bytes × DataContext Bytes),
      values decode now (l.map fun entry => .ok (entry.1, encode entry.2)) =
        (l.filterMap fun entry => entry.2.intoPayload now).map .ok := fun l => by
    rw [values_eq, flatten, List.filterMap_map, List.filterMap_filterMap, List.map_filterMap]
    refine List.filterMap_congr fun entry _ => ?_
    simp only [Function.comp_apply, Except.toOption, Option.bind_some, parseValue, hdecode,
      Except.map]
    cases entry.2.intoPayload now <;> rfl
  rw [hcard, hvalues, countValues_eq, collect_map_ok, ColumnFamily.hcard]
  exact congrArg Except.ok (Nat.zero_add _)

theorem scan_stored (cf : ColumnFamily) (key : GenericKey) (count : Nat) (cursor : Option Bytes) :
    scan decode now count cursor ((cf.prefixIterator (scanStart key cursor)).map fun entry =>
      .ok (entry.1, encode entry.2)) = cf.scan now key count cursor := by
  have hrecord : ∀ entry : Bytes × DataContext Bytes,
      mapRecords decode now (entry.1, encode entry.2) = mapRecord now entry := fun entry => by
    simp only [mapRecords, mapRecord, hdecode]
    rfl
  rw [scan, records_eq, flatten, List.filterMap_map, List.filterMap_filterMap, ColumnFamily.scan]
  refine congrArg (fun items => collectItems count [] (skipCursor cursor items)) ?_
  refine List.filterMap_congr fun entry _ => ?_
  simp only [Function.comp_apply, Except.toOption, Option.bind_some, hrecord]

end Stored

/-! ## Which errors are returned -/

theorem transpose_eq_error {A : Type} {x : Except RocksError (Option A)} {err : RocksError} :
    transpose x = some (.error err) ↔ x = .error err := by
  rcases x with e | _ | a <;> simp [transpose]

theorem error_mem_values {iter : List (Except RocksdbError KVBytes)} :
    (∃ err, .error err ∈ values decode now iter) ↔
      ∃ data err, .ok data ∈ iter ∧ parseValue decode now data = .error err := by
  simp only [values_eq, List.mem_filterMap, mem_flatten, transpose_eq_error]
  exact exists_comm

/-- A page takes up to `limit + 1` more items. -/
theorem collectItems_eq_error_iff (limit : Nat) (items : List (MapEntry Bytes))
    (iter : List (Except RocksError (MapEntry Bytes))) :
    (∃ err, collectItems (items.length + limit + 1) items iter = .error err) ↔
      ErrorWithin (limit + 1) iter := by
  induction iter generalizing limit items with
  | nil =>
    rw [collectItems]
    exact iff_of_false (fun ⟨_, h⟩ => by cases h) not_errorWithin_nil
  | cons item iter ih =>
    cases item with
    | error err => exact iff_of_true ⟨err, rfl⟩ (errorWithin_cons_error limit err iter)
    | ok entry =>
      have hlen : (items ++ [entry]).length = items.length + 1 := by
        rw [List.length_append, List.length_singleton]
      rw [errorWithin_cons_ok, collectItems, hlen]
      cases limit with
      | zero =>
        -- the page is full
        rw [if_pos le_rfl]
        exact iff_of_false (fun ⟨_, h⟩ => by cases h) not_errorWithin_zero
      | succ limit =>
        have hcount : items.length + (limit + 1) + 1 = (items ++ [entry]).length + limit + 1 := by
          omega
        rw [if_neg (by omega), hcount]
        exact ih limit (items ++ [entry])

/-- What the cursor points to is passed over, an error is not. -/
theorem skipCursor_eq_append {cursor : Option Bytes} {err : RocksError}
    {iter before after : List (Except RocksError (MapEntry Bytes))} :
    skipCursor cursor iter = before ++ .error err :: after ↔
      ∃ front, iter = front ++ .error err :: after ∧ skipCursor cursor front = before := by
  constructor
  · intro h
    rcases iter with _ | ⟨err' | entry, iter⟩
    · exact absurd h (List.nil_eq_append_iff.not.mpr (by simp))
    · refine ⟨before, h, ?_⟩
      cases before with
      | nil => rfl
      | cons item before =>
        cases h
        rfl
    · rw [skipCursor] at h
      by_cases hcursor : cursor = some entry.field
      · rw [if_pos hcursor] at h
        refine ⟨.ok entry :: before, by rw [h]; rfl, ?_⟩
        rw [skipCursor, if_pos hcursor]
      · rw [if_neg hcursor] at h
        refine ⟨before, h, ?_⟩
        cases before with
        | nil => cases h
        | cons item before =>
          cases h
          rw [skipCursor, if_neg hcursor]
  · rintro ⟨front, rfl, rfl⟩
    rcases front with _ | ⟨err' | entry, front⟩
    · rfl
    · rfl
    · rw [List.cons_append, skipCursor, skipCursor]
      split <;> rfl

theorem records_eq_append {iter : List (Except RocksdbError KVBytes)} {err : RocksError}
    {before after : List (Except RocksError (MapEntry Bytes))} :
    records decode now iter = before ++ .error err :: after ↔
      ∃ front data back, iter = front ++ .ok data :: back ∧
        mapRecords decode now data = .error err ∧
        records decode now front = before ∧ records decode now back = after := by
  have hfilterMap : ∀ iter, records decode now iter = iter.filterMap fun item =>
      item.toOption.bind fun data => transpose (mapRecords decode now data) := fun iter => by
    rw [records_eq, flatten, List.filterMap_filterMap]
  constructor
  · intro h
    rw [hfilterMap, List.filterMap_eq_append_iff] at h
    obtain ⟨front, rest, rfl, hfront, hrest⟩ := h
    obtain ⟨skipped, item, back, rfl, hskipped, hitem, hback⟩ := List.filterMap_eq_cons_iff.mp hrest
    cases item with
    | error e => cases hitem
    | ok data =>
      refine ⟨front ++ skipped, data, back, (List.append_assoc _ _ _).symm,
        transpose_eq_error.mp hitem, ?_, by rw [hfilterMap, hback]⟩
      rw [hfilterMap, List.filterMap_append, hfront, List.filterMap_eq_nil_iff.mpr hskipped,
        List.append_nil]
  · rintro ⟨front, data, back, rfl, hdata, rfl, rfl⟩
    simp only [hfilterMap, List.filterMap_append, List.filterMap_cons, Except.toOption,
      Option.bind_some, transpose_eq_error.mpr hdata]

/-- When reads of a map return an error, whatever errors of RocksDB the iterator yields: exactly when
a pair that they read does not deserialize, for a scan before its page is full. -/
theorem iteration_error_iff (iter : List (Except RocksdbError KVBytes)) :
    ((∃ err, hcard decode now iter = .error err) ↔
      ∃ data err, .ok data ∈ iter ∧ parseValue decode now data = .error err) ∧
    ((∃ err, hvals decode now iter = .error err) ↔
      ∃ data err, .ok data ∈ iter ∧ parseValue decode now data = .error err) ∧
    ∀ count cursor, 0 < count →
      ((∃ err, scan decode now count cursor iter = .error err) ↔
        ∃ front data back err, iter = front ++ .ok data :: back ∧
          mapRecords decode now data = .error err ∧
          (skipCursor cursor (records decode now front)).length < count) := by
  have hvals_iff : (∃ err, hvals decode now iter = .error err) ↔
      ∃ data err, .ok data ∈ iter ∧ parseValue decode now data = .error err := by
    rw [← error_mem_values]
    exact collect_eq_error_iff
  have hcard_iff : (∃ err, hcard decode now iter = .error err) ↔
      ∃ err, hvals decode now iter = .error err := by
    rw [hcard, countValues_eq, hvals]
    cases collect (values decode now iter) <;> simp [Except.map]
  refine ⟨hcard_iff.trans hvals_iff, hvals_iff, fun count cursor hcount => ?_⟩
  obtain ⟨limit, rfl⟩ := Nat.exists_eq_add_one.mpr hcount
  have hcollect := collectItems_eq_error_iff limit [] (skipCursor cursor (records decode now iter))
  rw [List.length_nil, Nat.zero_add] at hcollect
  rw [scan, hcollect]
  constructor
  · rintro ⟨before, err, after, heq, hlt⟩
    obtain ⟨skipped, hrecords, rfl⟩ := skipCursor_eq_append.mp heq
    obtain ⟨front, data, back, rfl, hdata, rfl, -⟩ := (records_eq_append decode now).mp hrecords
    exact ⟨front, data, back, err, rfl, hdata, hlt⟩
  · rintro ⟨front, data, back, err, rfl, hdata, hlt⟩
    have hrecords := (records_eq_append decode now).mpr ⟨front, data, back, rfl, hdata, rfl, rfl⟩
    exact ⟨_, err, _, skipCursor_eq_append.mpr ⟨_, hrecords, rfl⟩, hlt⟩

/-- Reads the first byte as a value that is valid until 50; nothing is an error. -/
def decodeByte : Bytes → Except RocksError (DataContext Bytes)
  | [] => .error .deserialize
  | byte :: _ => .ok ⟨.some [byte], 50, some 3, 0⟩

/-- Two pairs, the second without a value. -/
theorem iteration_error_iff_deserialize :
    ∃ err, scan decodeByte 40 2 none
      [.ok (extKey ⟨9, [5]⟩ [1], [7]), .ok (extKey ⟨9, [5]⟩ [2], [])] = .error err :=
  ((iteration_error_iff decodeByte 40 _).2.2 2 none (by decide)).mpr
    ⟨[.ok (extKey ⟨9, [5]⟩ [1], [7])], (extKey ⟨9, [5]⟩ [2], []), [], .deserialize, rfl,
      by decide +kernel, by decide +kernel⟩

/-- RocksDB yields one pair and then an error. -/
theorem iteration_error_swallowed :
    let iter : List (Except RocksdbError KVBytes) :=
      [.ok (extKey ⟨9, [5]⟩ [1], [7]), .error ⟨"IOError", "block checksum mismatch"⟩]
    hcard decodeByte 40 iter = .ok 1 ∧ hvals decodeByte 40 iter = .ok [[7]] ∧
      scan decodeByte 40 2 none iter = .ok ⟨[⟨[1], [7], 50, 3⟩], false⟩ := by
  decide +kernel

end Iterators

end Storage
end Wcn
