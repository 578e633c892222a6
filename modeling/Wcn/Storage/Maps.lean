import Wcn.Lib.Paging
import Wcn.Storage.Engine

/-!
# Wcn.Storage.Maps

The maps of a database, as `MapStorage::hscan` pages through them. The entries of a map stand in the
order of their serialized fields: first by the bytes of the length, then byte by byte. A page holds the
first entries behind the cursor, and says whether there are more (`scan_eq_page`). Page after page they
are all entries of the map (`follow_hscanPage`).
-/

namespace Wcn
namespace Storage

open Lib StorageApi

/-- The place of a field in a map. -/
def fieldRank (field : Bytes) : Bytes := serialize field

/-- The keys of maps as the server writes them: not too long for the lengths inside of them. -/
def Backend.WellKeyed (db : Backend) : Prop :=
  db.KeysIn fun name bytes => name = .genericMap →
    ∃ (key : GenericKey) (field : Bytes), key.data ≠ [] ∧ key.data.length < 2 ^ 32 ∧
      field.length < 2 ^ 64 ∧ bytes = extKey key field

/-- The field of a map that an operation writes. -/
def writtenField : Operation Bytes → Option Bytes
  | .hset entry => some entry.field
  | .hdel field _ | .hsetExp field _ _ => some field
  | _ => none

/-- What a scan makes of a stored pair, if it can read it. -/
def entryOf (now : Nat) (entry : Bytes × DataContext Bytes) : Option (MapEntry Bytes) :=
  match transpose (mapRecord now entry) with
  | some (.ok entry) => some entry
  | _ => none

/-- The readable entries of a map, in the order of the database. -/
def ColumnFamily.mapEntries (self : ColumnFamily) (now : Nat) (key : GenericKey) :
    List (MapEntry Bytes) :=
  (self.prefixIterator (storageKey key)).filterMap (entryOf now)

/-- A record that can be read is stored under the key of the field. -/
def Backend.Readable (db : Backend) (now : Nat) (key : GenericKey) (field : Bytes) : Prop :=
  ∃ ctx record, (db.cf .genericMap)[extKey key field]? = some ctx ∧ ctx.readRecord now = some record

theorem fieldRank_injective : Function.Injective fieldRank := frameBytes_injective

/-! ## Keys of one map -/

section Keys

variable {db : Backend} {key : GenericKey} (hpos : key.data ≠ []) (hlen : key.data.length < 2 ^ 32)

include hpos hlen

theorem mapRecord_extKey {field : Bytes} (hfield : field.length < 2 ^ 64) (now : Nat)
    (ctx : DataContext Bytes) :
    mapRecord now (extKey key field, ctx) =
      .ok ((ctx.readRecord now).map fun record => ⟨field, record⟩) := by
  rw [mapRecord]
  dsimp only
  rw [extKey, splitExtKey_extKeyFromSlice hpos hlen]
  dsimp only [bind, Except.bind]
  rw [deserialize_serialize hfield]
  rfl

theorem dynamicPrefixExtractor_extKeyFromSlice (value : Bytes) :
    dynamicPrefixExtractor (extKeyFromSlice key value) = storageKey key :=
  dynamicPrefixExtractor_toBytes hpos hlen value

theorem dynamicPrefixExtractor_storageKey :
    dynamicPrefixExtractor (storageKey key) = storageKey key := by
  have h := dynamicPrefixExtractor_extKeyFromSlice hpos hlen []
  rwa [extKeyFromSlice, List.append_nil] at h

/-- An iterator that starts inside a map leaves out the keys before its start. -/
theorem prefixIterator_extKeyFromSlice (cf : ColumnFamily) (value : Bytes) :
    cf.prefixIterator (extKeyFromSlice key value) =
      (cf.prefixIterator (storageKey key)).filter fun entry =>
        (compare (extKeyFromSlice key value) entry.1).isLE := by
  rw [ColumnFamily.prefixIterator, ColumnFamily.prefixIterator, List.filter_filter,
    dynamicPrefixExtractor_extKeyFromSlice hpos hlen, dynamicPrefixExtractor_storageKey hpos hlen]
  refine List.filter_congr fun entry _ => ?_
  by_cases heq : dynamicPrefixExtractor entry.1 = storageKey key
  · -- a key of the map is not before the map
    obtain ⟨rest, hrest⟩ := (dynamicPrefixExtractor_eq_iff hpos hlen).mp heq
    have hle : (compare (storageKey key) entry.1).isLE = true := by
      have hcompare := compare_append_left (storageKey key) [] rest
      rw [List.append_nil, storageKey, hrest] at hcompare
      rw [storageKey, hcompare]
      cases rest <;> rfl
    rw [hle, Bool.true_and]
  · rw [decide_eq_false heq, Bool.and_false, Bool.and_false, Bool.and_false]

theorem exists_field (hdb : db.WellKeyed) {entry : Bytes × DataContext Bytes}
    (hentry : entry ∈ (db.cf .genericMap).prefixIterator (storageKey key)) :
    ∃ field : Bytes, field.length < 2 ^ 64 ∧ entry.1 = extKey key field := by
  obtain ⟨hmem, hyields⟩ := List.mem_filter.mp hentry
  have hkey : entry.1 ∈ db.cf .genericMap := Std.ExtTreeMap.mem_iff_isSome_getElem?.mpr
    (by rw [Std.ExtTreeMap.mem_toList_iff_getElem?_eq_some.mp hmem]; rfl)
  obtain ⟨key', field, hpos', hlen', hfield, heq⟩ := hdb .genericMap entry.1 hkey rfl
  refine ⟨field, hfield, ?_⟩
  have hprefix := of_decide_eq_true (Bool.and_eq_true_iff.mp hyields).2
  rw [dynamicPrefixExtractor_storageKey hpos hlen, heq, extKey,
    dynamicPrefixExtractor_extKeyFromSlice hpos' hlen'] at hprefix
  rw [heq, extKey, extKey, extKeyFromSlice, extKeyFromSlice, hprefix]

/-- Nothing in a map fails to be read. -/
theorem transpose_mapRecord (hdb : db.WellKeyed) (now : Nat) {entry : Bytes × DataContext Bytes}
    (hentry : entry ∈ (db.cf .genericMap).prefixIterator (storageKey key)) :
    transpose (mapRecord now entry) = (entryOf now entry).map .ok := by
  obtain ⟨field, hfield, heq⟩ := exists_field hpos hlen hdb hentry
  obtain ⟨bytes, ctx⟩ := entry
  subst heq
  rw [entryOf, mapRecord_extKey hpos hlen hfield]
  cases ctx.readRecord now <;> rfl

theorem entryOf_field {now : Nat} {bytes field : Bytes} {ctx : DataContext Bytes}
    (hfield : field.length < 2 ^ 64) (hbytes : bytes = extKey key field) {entry : MapEntry Bytes}
    (h : entryOf now (bytes, ctx) = some entry) : entry.field = field := by
  subst hbytes
  rw [entryOf, mapRecord_extKey hpos hlen hfield] at h
  cases hread : ctx.readRecord now with
  | none =>
    rw [hread] at h
    cases h
  | some record =>
    rw [hread] at h
    cases h
    rfl

theorem ranked_mapEntries (hdb : db.WellKeyed) (now : Nat) :
    Ranked fieldRank MapEntry.field ((db.cf .genericMap).mapEntries now key) := by
  have hsorted : ((db.cf .genericMap).prefixIterator (storageKey key)).Pairwise
      fun a b => compare a.1 b.1 = .lt :=
    Std.ExtTreeMap.ordered_keys_toList.filter _
  rw [Ranked, ColumnFamily.mapEntries, List.pairwise_filterMap]
  refine hsorted.imp_of_mem fun {a b} ha hb hlt x hx y hy => ?_
  obtain ⟨fa, hfa, hkeya⟩ := exists_field hpos hlen hdb ha
  obtain ⟨fb, hfb, hkeyb⟩ := exists_field hpos hlen hdb hb
  rw [entryOf_field hpos hlen hfa hkeya hx, entryOf_field hpos hlen hfb hkeyb hy]
  rw [hkeya, hkeyb, extKey, extKey, extKeyFromSlice, extKeyFromSlice, compare_append_left] at hlt
  exact Std.compare_eq_lt.mp hlt

end Keys

/-- The server writes such keys for requests of a bounded size. -/
theorem wellKeyed_executeAll (hash : Bytes → UInt64) (now : Nat) {requests : List Request}
    (hbound : ∀ request ∈ requests, request.key.length < 2 ^ 32 - 64 ∧
      ∀ field ∈ writtenField request.operation, field.length < 2 ^ 64) :
    (executeAll hash now Backend.empty requests).1.WellKeyed := by
  refine Backend.keysIn_empty.executeAll hash now fun request hrequest name bytes hwritten hname => ?_
  subst hname
  obtain ⟨hkey, hfields⟩ := hbound request hrequest
  have hdata : (key hash request.ns request.key).data.length < 2 ^ 32 := by
    rw [key, length_privateKey]
    omega
  have hbuilt : ∃ field ∈ writtenField request.operation,
      bytes = extKey (key hash request.ns request.key) field := by
    obtain ⟨ns, key, operation⟩ := request
    cases operation <;> cases hwritten
    case hset entry => exact ⟨entry.field, rfl, rfl⟩
    case hdel field _ => exact ⟨field, rfl, rfl⟩
    case hsetExp field _ _ => exact ⟨field, rfl, rfl⟩
  obtain ⟨field, hfield, hbytes⟩ := hbuilt
  exact ⟨_, field, privateKey_ne_nil _ _, hdata, hfields field hfield, hbytes⟩

/-! ## Pages -/

theorem skipCursor_ok {l : List (MapEntry Bytes)} (hl : Ranked fieldRank MapEntry.field l)
    {cursor : Bytes} (hcursor : ∀ entry ∈ l, fieldRank cursor ≤ fieldRank entry.field) :
    skipCursor (some cursor) (l.map .ok) =
      (l.filter fun entry => After fieldRank (some cursor) entry.field).map .ok := by
  cases l with
  | nil => rfl
  | cons entry l =>
    obtain ⟨hfirst, -⟩ := List.pairwise_cons.mp hl
    have hle := hcursor entry List.mem_cons_self
    have hrest : l.filter (fun entry => After fieldRank (some cursor) entry.field) = l :=
      List.filter_eq_self.mpr fun e he => decide_eq_true (lt_of_le_of_lt hle (hfirst e he))
    rw [List.map_cons, skipCursor, List.filter_cons, hrest]
    by_cases heq : cursor = entry.field
    · have hnot : ¬ After fieldRank (some cursor) entry.field := by
        rw [not_after_iff, heq]
        exact le_refl (fieldRank entry.field)
      rw [if_pos (congrArg some heq), if_neg (by simpa using hnot)]
    · have hafter : After fieldRank (some cursor) entry.field :=
        lt_of_le_of_ne hle fun h => heq (fieldRank_injective h)
      rw [if_neg fun h => heq (Option.some.inj h), if_pos (decide_eq_true hafter), List.map_cons]

theorem collectItems_ok {count : Nat} {items : List (MapEntry Bytes)} (h : items.length < count)
    (l : List (MapEntry Bytes)) :
    collectItems count items (l.map .ok) =
      .ok ⟨items ++ l.take (count - items.length), count < items.length + l.length⟩ := by
  induction l generalizing items with
  | nil =>
    rw [List.map_nil, collectItems, List.take_nil, List.append_nil, List.length_nil, Nat.add_zero,
      decide_eq_false (Nat.lt_asymm h)]
  | cons entry l ih =>
    have hlen : (items ++ [entry]).length = items.length + 1 := by
      rw [List.length_append, List.length_singleton]
    rw [List.map_cons, collectItems]
    by_cases hlast : count ≤ (items ++ [entry]).length
    · have hone : count - items.length = 1 := by omega
      rw [if_pos hlast, hone, List.take_succ_cons, List.take_zero, List.length_cons]
      refine congrArg (fun next => Except.ok (MapPage.mk _ next)) ?_
      cases l with
      | nil => simp; omega
      | cons e l => simp; omega
    · have hmore : count - items.length = count - (items ++ [entry]).length + 1 := by omega
      rw [if_neg hlast, ih (by omega), hmore, List.take_succ_cons, List.length_cons, hlen,
        List.append_assoc, List.singleton_append, Nat.add_right_comm, Nat.add_assoc]

section Scan

variable {db : Backend} {key : GenericKey} (hpos : key.data ≠ []) (hlen : key.data.length < 2 ^ 32)
  (hdb : db.WellKeyed) (now : Nat)

include hpos hlen hdb

/-- What an iterator over a part of the map yields. -/
theorem filterMap_transpose (p : Bytes × DataContext Bytes → Bool) :
    (((db.cf .genericMap).prefixIterator (storageKey key)).filter p).filterMap
        (fun entry => transpose (mapRecord now entry)) =
      ((((db.cf .genericMap).prefixIterator (storageKey key)).filter p).filterMap
        (entryOf now)).map .ok := by
  rw [List.map_filterMap]
  exact List.filterMap_congr fun entry hentry =>
    transpose_mapRecord hpos hlen hdb now (List.mem_of_mem_filter hentry)

/-- The keys from that of the cursor on are those of the entries not before the cursor. -/
theorem filterMap_from (cursor : Bytes) :
    (((db.cf .genericMap).prefixIterator (storageKey key)).filter fun entry =>
        (compare (extKey key cursor) entry.1).isLE).filterMap (entryOf now) =
      ((db.cf .genericMap).mapEntries now key).filter
        fun entry => fieldRank cursor ≤ fieldRank entry.field := by
  rw [ColumnFamily.mapEntries, List.filter_filterMap, List.filterMap_filter]
  refine List.filterMap_congr fun entry hentry => ?_
  obtain ⟨field, hfield, hkey⟩ := exists_field hpos hlen hdb hentry
  cases hentry' : entryOf now entry with
  | none => simp
  | some e =>
    have hcompare : (compare (extKey key cursor) entry.1).isLE = true ↔
        fieldRank cursor ≤ fieldRank e.field := by
      rw [hkey, entryOf_field hpos hlen hfield hkey hentry', extKey, extKey, extKeyFromSlice,
        extKeyFromSlice, compare_append_left, Std.isLE_compare]
      rfl
    rw [Option.filter_some]
    by_cases hle : fieldRank cursor ≤ fieldRank e.field
    · rw [if_pos (hcompare.mpr hle), if_pos (decide_eq_true hle)]
    · rw [if_neg (mt hcompare.mp hle), if_neg (by simpa using hle)]

/-- What is left of the iterator behind the cursor. -/
theorem skipCursor_scanStart (cursor : Option Bytes) :
    skipCursor cursor (((db.cf .genericMap).prefixIterator (scanStart key cursor)).filterMap
        fun entry => transpose (mapRecord now entry)) =
      (((db.cf .genericMap).mapEntries now key).filter
        fun entry => After fieldRank cursor entry.field).map .ok := by
  cases cursor with
  | none =>
    have hall := filterMap_transpose hpos hlen hdb now fun _ => true
    rw [List.filter_true] at hall
    rw [scanStart, hall, filter_after_none, ColumnFamily.mapEntries]
    generalize (((db.cf .genericMap).prefixIterator (storageKey key)).filterMap (entryOf now)) = l
    cases l <;> rfl
  | some cursor =>
    have hranked := (ranked_mapEntries hpos hlen hdb now).filter
      fun entry => decide (fieldRank cursor ≤ fieldRank entry.field)
    rw [scanStart, prefixIterator_extKeyFromSlice hpos hlen, filterMap_transpose hpos hlen hdb, ← extKey,
      filterMap_from hpos hlen hdb,
      skipCursor_ok hranked fun entry hentry => of_decide_eq_true (List.mem_filter.mp hentry).2,
      List.filter_filter]
    refine congrArg _ (List.filter_congr fun entry _ => ?_)
    rw [Bool.and_eq_left_iff_imp, decide_eq_true_iff, decide_eq_true_iff]
    exact fun h => le_of_lt h

end Scan

/-- A scan returns the first entries behind the cursor. -/
theorem scan_eq_page {db : Backend} (hdb : db.WellKeyed) {key : GenericKey} (hpos : key.data ≠ [])
    (hlen : key.data.length < 2 ^ 32) (now : Nat) {count : Nat} (hcount : 0 < count)
    (cursor : Option Bytes) :
    (db.cf .genericMap).scan now key count cursor =
      .ok ⟨pageAfter fieldRank MapEntry.field count cursor ((db.cf .genericMap).mapEntries now key),
        count < (((db.cf .genericMap).mapEntries now key).filter
          fun entry => After fieldRank cursor entry.field).length⟩ := by
  rw [ColumnFamily.scan, skipCursor_scanStart hpos hlen hdb, collectItems_ok hcount, List.nil_append,
    List.length_nil, Nat.sub_zero, Nat.zero_add]
  rfl

/-! ## Whole scans -/

/-- A page with the cursor that its reader goes on with. -/
def ColumnFamily.hscanPage (self : ColumnFamily) (now : Nat) (key : GenericKey) (count : Nat)
    (cursor : Option Bytes) : List (MapEntry Bytes) × Option Bytes :=
  match self.scan now key count cursor with
  | .ok page => (page.entries, page.nextPageCursor)
  | .error _ => ([], none)

section Whole

variable {db : Backend} (hdb : db.WellKeyed) {key : GenericKey} (hpos : key.data ≠ [])
  (hlen : key.data.length < 2 ^ 32) (now : Nat)

include hdb hpos hlen

theorem mem_mapEntries {entry : MapEntry Bytes} :
    entry ∈ (db.cf .genericMap).mapEntries now key ↔
      ∃ ctx, (db.cf .genericMap)[extKey key entry.field]? = some ctx ∧
        ctx.readRecord now = some entry.record := by
  rw [ColumnFamily.mapEntries, List.mem_filterMap]
  constructor
  · rintro ⟨⟨bytes, ctx⟩, hmem, hentry⟩
    obtain ⟨field, hfield, hbytes⟩ := exists_field hpos hlen hdb hmem
    have hkey := entryOf_field hpos hlen hfield hbytes hentry
    dsimp only at hbytes
    subst hbytes hkey
    refine ⟨ctx, Std.ExtTreeMap.mem_toList_iff_getElem?_eq_some.mp (List.mem_filter.mp hmem).1, ?_⟩
    rw [entryOf, mapRecord_extKey hpos hlen hfield] at hentry
    cases hread : ctx.readRecord now with
    | none =>
      rw [hread] at hentry
      cases hentry
    | some record =>
      rw [hread] at hentry
      exact congrArg (some ∘ MapEntry.record) (Option.some.inj hentry)
  · rintro ⟨ctx, hctx, hread⟩
    have hmem : (extKey key entry.field, ctx) ∈
        (db.cf .genericMap).prefixIterator (storageKey key) := by
      have hle := compare_append_left (storageKey key) [] (serialize entry.field)
      rw [List.append_nil] at hle
      refine List.mem_filter.mpr ⟨Std.ExtTreeMap.mem_toList_iff_getElem?_eq_some.mpr hctx, ?_⟩
      rw [extKey, dynamicPrefixExtractor_extKeyFromSlice hpos hlen,
        dynamicPrefixExtractor_storageKey hpos hlen, extKeyFromSlice, hle, decide_eq_true rfl]
      cases serialize entry.field <;> rfl
    obtain ⟨field, hfield, hbytes⟩ := exists_field hpos hlen hdb hmem
    have hkey : entry.field = field :=
      frameBytes_injective (List.append_cancel_left
        (show storageKey key ++ serialize entry.field = storageKey key ++ serialize field from hbytes))
    subst hkey
    refine ⟨_, hmem, ?_⟩
    rw [entryOf, mapRecord_extKey hpos hlen hfield, hread]
    rfl

theorem length_field_lt {entry : MapEntry Bytes}
    (h : entry ∈ (db.cf .genericMap).mapEntries now key) : entry.field.length < 2 ^ 64 := by
  obtain ⟨⟨bytes, ctx⟩, hmem, hentry⟩ := List.mem_filterMap.mp h
  obtain ⟨field, hfield, hbytes⟩ := exists_field hpos hlen hdb hmem
  rw [entryOf_field hpos hlen hfield hbytes hentry]
  exact hfield

theorem length_mapEntries :
    ((db.cf .genericMap).mapEntries now key).length = (db.cf .genericMap).hcard now key := by
  rw [ColumnFamily.mapEntries, ColumnFamily.hcard, List.length_filterMap_eq_countP,
    List.length_filterMap_eq_countP]
  refine List.countP_congr fun entry hentry => ?_
  obtain ⟨field, hfield, hbytes⟩ := exists_field hpos hlen hdb hentry
  obtain ⟨bytes, ctx⟩ := entry
  dsimp only at hbytes ⊢
  subst hbytes
  rw [entryOf, mapRecord_extKey hpos hlen hfield, DataContext.readRecord]
  cases ctx.intoPayload now <;> simp [transpose]

theorem follow_hscanPage {count : Nat} (hcount : 0 < count) :
    follow ((db.cf .genericMap).hscanPage now key count) ((db.cf .genericMap).hcard now key + 1) none =
      some ((db.cf .genericMap).mapEntries now key) := by
  have hnext : ∀ cursor, (db.cf .genericMap).hscanPage now key count cursor =
      (pageAfter fieldRank MapEntry.field count cursor ((db.cf .genericMap).mapEntries now key),
        if count < (((db.cf .genericMap).mapEntries now key).filter
            fun entry => After fieldRank cursor entry.field).length then
          (pageAfter fieldRank MapEntry.field count cursor
            ((db.cf .genericMap).mapEntries now key)).getLast?.map MapEntry.field
        else none) := fun cursor => by
    rw [ColumnFamily.hscanPage, scan_eq_page hdb hpos hlen now hcount]
    simp only [MapPage.nextPageCursor, decide_eq_true_eq]
  have hfuel : (((db.cf .genericMap).mapEntries now key).filter
      fun entry => After fieldRank none entry.field).length <
        (db.cf .genericMap).hcard now key + 1 := by
    rw [filter_after_none, length_mapEntries hdb hpos hlen]
    exact Nat.lt_succ_self _
  rw [(ranked_mapEntries hpos hlen hdb now).follow_pages hcount hnext hfuel, filter_after_none]

end Whole

theorem compare_extKey (key : GenericKey) (a b : Bytes) :
    compare (extKey key a) (extKey key b) = compare (fieldRank a) (fieldRank b) :=
  compare_append_left (storageKey key) (serialize a) (serialize b)

/-- Scans of a database that does not change, at a fixed clock. Page after page they return the entries
that are readable under keys of the map, in the order of these keys, and as many as `hcard` counts. A
page for any cursor holds the first of them behind the key of the cursor, and says whether there are
more. -/
theorem hscan_pages {db : Backend} (hdb : db.WellKeyed) {key : GenericKey} (hpos : key.data ≠ [])
    (hlen : key.data.length < 2 ^ 32) (now : Nat) {count : Nat} (hcount : 0 < count) :
    ∃ fuel out, follow ((db.cf .genericMap).hscanPage now key count) fuel none = some out ∧
      (∀ entry, entry ∈ out ↔ ∃ ctx, (db.cf .genericMap)[extKey key entry.field]? = some ctx ∧
        ctx.readRecord now = some entry.record) ∧
      out.Pairwise (fun a b => compare (extKey key a.field) (extKey key b.field) = .lt) ∧
      out.length = (db.cf .genericMap).hcard now key ∧
      (db.cf .genericMap).scan now key count none = .ok ⟨out.take count, count < out.length⟩ ∧
      ∀ cursor,
        let behind := out.filter fun entry => compare (extKey key cursor) (extKey key entry.field) = .lt
        (db.cf .genericMap).scan now key count (some cursor) =
          .ok ⟨behind.take count, count < behind.length⟩ := by
  refine ⟨_, _, follow_hscanPage hdb hpos hlen now hcount,
    fun entry => mem_mapEntries hdb hpos hlen now, ?_, length_mapEntries hdb hpos hlen now, ?_, ?_⟩
  · refine (ranked_mapEntries hpos hlen hdb now).imp fun {a b} hab => ?_
    rw [compare_extKey, Std.compare_eq_lt]
    exact hab
  · rw [scan_eq_page hdb hpos hlen now hcount, pageAfter, filter_after_none]
  · intro cursor
    have hbehind : ∀ entry : MapEntry Bytes,
        compare (extKey key cursor) (extKey key entry.field) = .lt ↔
          After fieldRank (some cursor) entry.field := fun entry => by
      rw [compare_extKey, Std.compare_eq_lt]
      rfl
    simp only [hbehind]
    exact scan_eq_page hdb hpos hlen now hcount (some cursor)

/-- What was written of a map: the field `[2]` before the field `[1, 1]`. -/
def twoFields : Backend :=
  (executeAll (fun _ => 9) 40 Backend.empty
    [⟨⟨Vector.replicate 21 1⟩, [5], .hset ⟨[2], [7], 50, 3⟩⟩,
      ⟨⟨Vector.replicate 21 1⟩, [5], .hset ⟨[1, 1], [8], 50, 4⟩⟩]).1

def twoFieldsKey : GenericKey := key (fun _ => 9) ⟨Vector.replicate 21 1⟩ [5]

theorem wellKeyed_twoFields : twoFields.WellKeyed := wellKeyed_executeAll _ _ (by decide)

theorem hscan_pages_twoFields :
    ∃ fuel out, follow ((twoFields.cf .genericMap).hscanPage 40 twoFieldsKey 1) fuel none = some out ∧
      out.length = 2 := by
  obtain ⟨fuel, out, hfollow, -, -, hlength, -⟩ := hscan_pages wellKeyed_twoFields
    (show twoFieldsKey.data ≠ [] from privateKey_ne_nil _ _) (by decide) 40 Nat.one_pos
  refine ⟨fuel, out, hfollow, hlength.trans ?_⟩
  decide +kernel

/-! ## The order of the fields -/

section Ascending

variable {db : Backend} (hdb : db.WellKeyed) {key : GenericKey} (hpos : key.data ≠ [])
  (hlen : key.data.length < 2 ^ 32) (now : Nat)

include hdb hpos hlen

theorem ascending_mapEntries_iff :
    ((db.cf .genericMap).mapEntries now key).Pairwise (fun a b => a.field < b.field) ↔
      ∀ a ∈ (db.cf .genericMap).mapEntries now key, ∀ b ∈ (db.cf .genericMap).mapEntries now key,
        toVarint 10 a.field.length < toVarint 10 b.field.length → a.field < b.field := by
  have hranked := ranked_mapEntries hpos hlen hdb now
  have hrank : ∀ {a b : MapEntry Bytes}, a ∈ (db.cf .genericMap).mapEntries now key →
      b ∈ (db.cf .genericMap).mapEntries now key →
      (fieldRank a.field < fieldRank b.field ↔
        toVarint 10 a.field.length < toVarint 10 b.field.length ∨
          a.field.length = b.field.length ∧ a.field < b.field) := fun ha hb =>
    frameBytes_lt_iff (length_field_lt hdb hpos hlen now ha) (length_field_lt hdb hpos hlen now hb)
  constructor
  · intro hascending a ha b hb hlt
    -- two entries stand in one order by rank and by field
    let Agree (a b : MapEntry Bytes) : Prop :=
      fieldRank a.field < fieldRank b.field ∧ a.field < b.field ∨
        fieldRank b.field < fieldRank a.field ∧ b.field < a.field
    have hsymm : Std.Symm Agree := ⟨fun _ _ h => Or.symm h⟩
    have hagree : ((db.cf .genericMap).mapEntries now key).Pairwise Agree :=
      (hranked.and hascending).imp fun h => .inl h
    have hab := (hrank ha hb).mpr (.inl hlt)
    have hne : a ≠ b := by
      rintro rfl
      exact lt_irrefl _ hab
    rcases hagree.forall ha hb hne with ⟨-, h⟩ | ⟨hba, -⟩
    · exact h
    · exact absurd hba (lt_asymm hab)
  · intro h
    refine hranked.imp_of_mem fun {a b} ha hb hab => ?_
    rcases (hrank ha hb).mp hab with hlt | ⟨-, hlt⟩
    · exact h a ha b hb hlt
    · exact hlt

/-- A scan returns the readable entries of a map, in ascending order of their fields exactly when no
readable field is greater than one whose length, as the bytes in front of it, is greater. -/
theorem hscan_ascending_iff {count : Nat} (hcount : 0 < count) :
    ∃ fuel out, follow ((db.cf .genericMap).hscanPage now key count) fuel none = some out ∧
      (∀ entry, entry ∈ out ↔ ∃ ctx, (db.cf .genericMap)[extKey key entry.field]? = some ctx ∧
        ctx.readRecord now = some entry.record) ∧
      (out.Pairwise (fun a b => a.field < b.field) ↔
        ∀ f g, db.Readable now key f → db.Readable now key g →
          toVarint 10 f.length < toVarint 10 g.length → f < g) := by
  refine ⟨_, _, follow_hscanPage hdb hpos hlen now hcount,
    fun entry => mem_mapEntries hdb hpos hlen now, ?_⟩
  rw [ascending_mapEntries_iff hdb hpos hlen now]
  constructor
  · rintro h f g ⟨ctx, record, hctx, hread⟩ ⟨ctx', record', hctx', hread'⟩
    exact h ⟨f, record⟩ ((mem_mapEntries hdb hpos hlen now).mpr ⟨ctx, hctx, hread⟩)
      ⟨g, record'⟩ ((mem_mapEntries hdb hpos hlen now).mpr ⟨ctx', hctx', hread'⟩)
  · intro h a ha b hb
    obtain ⟨ctx, hctx, hread⟩ := (mem_mapEntries hdb hpos hlen now).mp ha
    obtain ⟨ctx', hctx', hread'⟩ := (mem_mapEntries hdb hpos hlen now).mp hb
    exact h a.field b.field ⟨ctx, _, hctx, hread⟩ ⟨ctx', _, hctx', hread'⟩

end Ascending

theorem readable_twoFields (field : Bytes)
    (h : (((twoFields.cf .genericMap)[extKey twoFieldsKey field]?).bind
      fun ctx => ctx.readRecord 40).isSome = true) : twoFields.Readable 40 twoFieldsKey field := by
  obtain ⟨record, hrecord⟩ := Option.isSome_iff_exists.mp h
  obtain ⟨ctx, hctx, hread⟩ := Option.bind_eq_some_iff.mp hrecord
  exact ⟨ctx, record, hctx, hread⟩

/-- The field `[2]` is shorter than `[1, 1]` but greater. -/
theorem hscan_ascending_iff_twoFields :
    ∃ fuel out, follow ((twoFields.cf .genericMap).hscanPage 40 twoFieldsKey 1) fuel none = some out ∧
      ¬ out.Pairwise (fun a b => a.field < b.field) := by
  obtain ⟨fuel, out, hfollow, -, hiff⟩ :=
    hscan_ascending_iff wellKeyed_twoFields (show twoFieldsKey.data ≠ [] from privateKey_ne_nil _ _)
      (by decide) 40 Nat.one_pos
  refine ⟨fuel, out, hfollow, fun hascending => ?_⟩
  have hlt : ([2] : Bytes) < [1, 1] := hiff.mp hascending [2] [1, 1]
    (readable_twoFields [2] (by decide +kernel)) (readable_twoFields [1, 1] (by decide +kernel))
    (by decide)
  exact absurd hlt (by decide)

theorem hscan_not_ascending :
    follow ((twoFields.cf .genericMap).hscanPage 40 twoFieldsKey 1) 3 none =
      some [⟨[2], [7], 50, 3⟩, ⟨[1, 1], [8], 50, 4⟩] ∧ ([1, 1] : Bytes) < [2] := by
  decide +kernel

end Storage
end Wcn
