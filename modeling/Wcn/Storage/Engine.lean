import Wcn.Lib.OrderedMaps
import Wcn.Storage.Keys
import Wcn.Storage.Migration

/-!
# Wcn.Storage.Engine

The database of a node and the server in front of it (`crates/rocks/src/db`, `crates/db/src/server.rs`).

A column family is a map ordered by the bytes of its keys. A prefix iterator yields the keys from its
start on for which the extractor returns what it returns for the start. Merges are applied one by
one, and the clock is an argument. `response_congr` says what a response depends on: the records
readable under the keys that the extractor groups with the request's key.
-/

namespace Wcn
namespace Storage

open Lib StorageApi

/-- The column families that the server uses. -/
inductive ColumnFamilyName where
  | genericString
  | genericMap
  deriving DecidableEq, Repr

abbrev ColumnFamily := Std.ExtTreeMap Bytes (DataContext Bytes)

namespace ColumnFamily

/-- `RocksBackend::range_iterator`: the lower bound is inclusive, the upper one is not. -/
def rangeIterator (self : ColumnFamily) (left right : Option Bytes) :
    List (Bytes × DataContext Bytes) :=
  self.toList.filter fun entry =>
    (left.all fun left => (compare left entry.1).isLE) &&
      right.all fun right => (compare entry.1 right).isLT

/-- `RocksBackend::prefix_iterator` and `prefix_iterator_with_cursor`. -/
def prefixIterator (self : ColumnFamily) (start : Bytes) : List (Bytes × DataContext Bytes) :=
  self.toList.filter fun entry =>
    (compare start entry.1).isLE && dynamicPrefixExtractor entry.1 = dynamicPrefixExtractor start

/-- `StringStorage::get` and `MapStorage::hget`. -/
def get (self : ColumnFamily) (now : Nat) (key : Bytes) : Option (Record Bytes) :=
  self[key]?.bind (·.readRecord now)

/-- `CommonStorage::expiration`. -/
def expiration (self : ColumnFamily) (now : Nat) (key : Bytes) : Except RocksError Nat :=
  match self[key]? with
  | none => .error .entryNotFound
  | some data =>
    if data.expired now || data.payload.asOption.isNone then
      .error .entryNotFound
    else
      .ok data.expires

/-- `MapStorage::hcard`. -/
def hcard (self : ColumnFamily) (now : Nat) (key : GenericKey) : Nat :=
  ((self.prefixIterator (storageKey key)).filterMap fun entry => entry.2.intoPayload now).length

end ColumnFamily

/-! ## Scans -/

/-- `MapRecords::map`. -/
def mapRecord (now : Nat) (entry : Bytes × DataContext Bytes) :
    Except RocksError (Option (MapEntry Bytes)) := do
  let field ← deserialize (← splitExtKey entry.1)
  return (entry.2.readRecord now).map fun record => ⟨field, record⟩

/-- `Result::transpose`. -/
def transpose {E A : Type} : Except E (Option A) → Option (Except E A)
  | .error e => some (.error e)
  | .ok none => none
  | .ok (some a) => some (.ok a)

/-- Passes over the item that the cursor points to, if it is still there. -/
def skipCursor (cursor : Option Bytes) :
    List (Except RocksError (MapEntry Bytes)) → List (Except RocksError (MapEntry Bytes))
  | .ok entry :: iter => if cursor = some entry.field then iter else .ok entry :: iter
  | iter => iter

/-- The loop of `scan`. -/
def collectItems (count : Nat) :
    List (MapEntry Bytes) → List (Except RocksError (MapEntry Bytes)) →
      Except RocksError (MapPage Bytes)
  | items, [] => .ok ⟨items, false⟩
  | _, .error err :: _ => .error err
  | items, .ok item :: iter =>
    if count ≤ (items ++ [item]).length then
      .ok ⟨items ++ [item], !iter.isEmpty⟩
    else
      collectItems count (items ++ [item]) iter

/-- The key that a scan starts from. -/
def scanStart (key : GenericKey) : Option Bytes → Bytes
  | some cursor => extKeyFromSlice key (serialize cursor)
  | none => storageKey key

/-- `iterators::scan`, for the column family of maps. -/
def ColumnFamily.scan (self : ColumnFamily) (now : Nat) (key : GenericKey) (count : Nat)
    (cursor : Option Bytes) : Except RocksError (MapPage Bytes) :=
  collectItems count [] <| skipCursor cursor <|
    (self.prefixIterator (scanStart key cursor)).filterMap fun entry =>
      transpose (mapRecord now entry)

/-! ## The backend -/

structure Backend where
  cf : ColumnFamilyName → ColumnFamily

namespace Backend

def empty : Backend := ⟨fun _ => ∅⟩

/-- `RocksBackend::merge`. -/
def merge (self : Backend) (name : ColumnFamilyName) (key : Bytes) (op : MergeOp Bytes) : Backend :=
  ⟨Function.update self.cf name
    ((self.cf name).alter key fun record => some (fullMerge record [op]))⟩

/-- The records by column family and key. -/
def toDatabase (self : Backend) : Database (ColumnFamilyName × Bytes) Bytes :=
  ⟨fun key => (self.cf key.1)[key.2]?⟩

theorem record_toDatabase (self : Backend) (name : ColumnFamilyName) (key : Bytes) :
    self.toDatabase.record (name, key) = (self.cf name)[key]? := rfl

theorem toDatabase_empty : empty.toDatabase = Database.empty := by
  refine congrArg Database.mk (funext fun key => ?_)
  exact Std.ExtTreeMap.getElem?_empty

/-- Merging into a column family is merging into its records. -/
theorem toDatabase_merge (self : Backend) (name : ColumnFamilyName) (key : Bytes)
    (op : MergeOp Bytes) :
    (self.merge name key op).toDatabase = self.toDatabase.merge (name, key) op := by
  refine congrArg Database.mk (funext fun ⟨name', key'⟩ => ?_)
  dsimp only [merge]
  by_cases hname : name' = name
  · subst hname
    rw [Function.update_self, Std.ExtTreeMap.getElem?_alter]
    by_cases hkey : key = key'
    · subst hkey
      rw [if_pos Std.ReflCmp.compare_self, Function.update_self]
      rfl
    · rw [if_neg fun h => hkey (Std.LawfulEqCmp.eq_of_compare h),
        Function.update_of_ne fun h => hkey (Prod.ext_iff.mp h).2.symm]
      rfl
  · rw [Function.update_of_ne hname, Function.update_of_ne fun h => hname (Prod.ext_iff.mp h).1]
    rfl

end Backend

/-! ## The server -/

def maxHscanCount : Nat := 5000

def respond : Except RocksError (Output Bytes) → Response Bytes
  | .ok output => .ok output
  | .error err => .error (Error.internal.withMessage err.toString)

/-- A missing or expired entry has no expiration. -/
def mapExpiration : Except RocksError Nat → Except RocksError (Option Nat)
  | .ok timestamp => .ok (some timestamp)
  | .error .entryNotFound => .ok none
  | .error err => .error err

structure Request where
  ns : Namespace
  key : Bytes
  operation : Operation Bytes

/-- `execute` of the server, on one request. -/
def execute (hash : Bytes → UInt64) (now : Nat) (db : Backend) (request : Request) :
    Backend × Response Bytes :=
  let key := key hash request.ns request.key
  let write (name : ColumnFamilyName) (key : Bytes) (op : MergeOp Bytes) : Backend × Response Bytes :=
    (db.merge name key op, respond (.ok .none))
  match request.operation with
  | .get => (db, respond (.ok (.record ((db.cf .genericString).get now (storageKey key)))))
  | .set record =>
    write .genericString (storageKey key) (.set record.value record.expiration record.version)
  | .del version => write .genericString (storageKey key) (.del now version)
  | .getExp =>
    (db, respond ((mapExpiration ((db.cf .genericString).expiration now (storageKey key))).map
      .expiration))
  | .setExp expiration version =>
    write .genericString (storageKey key) (.setExp expiration version)
  | .hget field => (db, respond (.ok (.record ((db.cf .genericMap).get now (extKey key field)))))
  | .hset entry =>
    write .genericMap (extKey key entry.field)
      (.set entry.record.value entry.record.expiration entry.record.version)
  | .hdel field version => write .genericMap (extKey key field) (.del now version)
  | .hgetExp field =>
    (db, respond ((mapExpiration ((db.cf .genericMap).expiration now (extKey key field))).map
      .expiration))
  | .hsetExp field expiration version =>
    write .genericMap (extKey key field) (.setExp expiration version)
  | .hcard => (db, respond (.ok (.cardinality ((db.cf .genericMap).hcard now key))))
  | .hscan count cursor =>
    if maxHscanCount < count then
      (db, .error Error.invalidArgument)
    else
      (db, respond (((db.cf .genericMap).scan now key count cursor).map .mapPage))

/-- A sequence of requests, one after the other. -/
def executeAll (hash : Bytes → UInt64) (now : Nat) (db : Backend) :
    List Request → Backend × List (Response Bytes)
  | [] => (db, [])
  | request :: requests =>
    let (db, response) := execute hash now db request
    let (db, responses) := executeAll hash now db requests
    (db, response :: responses)

/-! ## What a request writes -/

/-- The column family and the key in it that a request writes to. -/
def writtenKey (hash : Bytes → UInt64) (request : Request) : Option (ColumnFamilyName × Bytes) :=
  let key := key hash request.ns request.key
  match request.operation with
  | .set _ | .del _ | .setExp _ _ => some (.genericString, storageKey key)
  | .hset entry => some (.genericMap, extKey key entry.field)
  | .hdel field _ | .hsetExp field _ _ => some (.genericMap, extKey key field)
  | .get | .getExp | .hget _ | .hgetExp _ | .hcard | .hscan _ _ => none

/-- A request merges one operand into the key it writes to, whatever the database holds. -/
theorem execute_db (hash : Bytes → UInt64) (now : Nat) (request : Request) :
    (writtenKey hash request = none ∧ ∀ db, (execute hash now db request).1 = db) ∨
    ∃ name bytes op, writtenKey hash request = some (name, bytes) ∧
      ∀ db, (execute hash now db request).1 = db.merge name bytes op := by
  obtain ⟨ns, bytes, operation⟩ := request
  cases operation with
  | get | getExp | hget _ | hgetExp _ | hcard => exact .inl ⟨rfl, fun db => rfl⟩
  | set _ | del _ | setExp _ _ | hset _ | hdel _ _ | hsetExp _ _ _ =>
    exact .inr ⟨_, _, _, rfl, fun db => rfl⟩
  | hscan count cursor =>
    refine .inl ⟨rfl, fun db => ?_⟩
    simp only [execute]
    split <;> rfl

/-- All keys of the database are of some form. -/
def Backend.KeysIn (P : ColumnFamilyName → Bytes → Prop) (db : Backend) : Prop :=
  ∀ name bytes, bytes ∈ db.cf name → P name bytes

section KeysIn

variable {P : ColumnFamilyName → Bytes → Prop} {db : Backend}

theorem Backend.keysIn_empty : Backend.empty.KeysIn P :=
  fun _ _ hmem => absurd hmem Std.ExtTreeMap.not_mem_empty

theorem Backend.KeysIn.merge (h : db.KeysIn P) {name : ColumnFamilyName} {bytes : Bytes}
    (hkey : P name bytes) (op : MergeOp Bytes) : (db.merge name bytes op).KeysIn P := by
  intro name' bytes' hmem
  rw [Std.ExtTreeMap.mem_iff_isSome_getElem?, ← Backend.record_toDatabase,
    Backend.toDatabase_merge] at hmem
  by_cases heq : (name, bytes) = (name', bytes')
  · obtain ⟨rfl, rfl⟩ := Prod.ext_iff.mp heq
    exact hkey
  · rw [Database.record_merge_of_ne heq] at hmem
    exact h name' bytes' (Std.ExtTreeMap.mem_iff_isSome_getElem?.mpr hmem)

/-- So they stay while requests write keys of this form only. -/
theorem Backend.KeysIn.executeAll (h : db.KeysIn P) (hash : Bytes → UInt64) (now : Nat)
    {requests : List Request}
    (hkeys : ∀ request ∈ requests, ∀ name bytes,
      writtenKey hash request = some (name, bytes) → P name bytes) :
    (executeAll hash now db requests).1.KeysIn P := by
  induction requests generalizing db with
  | nil => exact h
  | cons request requests ih =>
    have hstep : (execute hash now db request).1.KeysIn P := by
      rcases execute_db hash now request with ⟨-, hread⟩ | ⟨name, bytes, op, hwritten, hwrite⟩
      · rw [hread]
        exact h
      · rw [hwrite]
        exact h.merge (hkeys request List.mem_cons_self name bytes hwritten) op
    exact ih hstep fun r hr => hkeys r (List.mem_cons_of_mem _ hr)

end KeysIn

/-- The bytes are what a column family stores a key under, with some field in the one for maps. -/
def BuiltFrom (key : GenericKey) : ColumnFamilyName → Bytes → Prop
  | .genericString, bytes => bytes = storageKey key
  | .genericMap, bytes => ∃ field, bytes = extKey key field

theorem BuiltFrom.exists_value {key : GenericKey} {name : ColumnFamilyName} {bytes : Bytes}
    (h : BuiltFrom key name bytes) : ∃ value, bytes = extKeyFromSlice key value := by
  cases name with
  | genericString => exact ⟨[], h.trans (List.append_nil _).symm⟩
  | genericMap =>
    obtain ⟨field, rfl⟩ := h
    exact ⟨serialize field, rfl⟩

theorem builtFrom_writtenKey {hash : Bytes → UInt64} {request : Request} {name : ColumnFamilyName}
    {bytes : Bytes} (h : writtenKey hash request = some (name, bytes)) :
    BuiltFrom (key hash request.ns request.key) name bytes := by
  obtain ⟨ns, key, operation⟩ := request
  cases operation <;> cases h
  case hset entry => exact ⟨entry.field, rfl⟩
  case hdel field _ => exact ⟨field, rfl⟩
  case hsetExp field _ _ => exact ⟨field, rfl⟩
  all_goals rfl

/-! ## What a response depends on -/

/-- What a read at `now` finds under a key: no record, one that is not readable, or one that is. -/
def ColumnFamily.readAt (self : ColumnFamily) (now : Nat) (key : Bytes) :
    Option (Option (Record Bytes)) :=
  self[key]?.map (·.readRecord now)

namespace ColumnFamily

theorem get_eq (self : ColumnFamily) (now : Nat) (key : Bytes) :
    self.get now key = (self.readAt now key).join := by
  rw [get, readAt]
  cases self[key]? <;> rfl

theorem expiration_eq (self : ColumnFamily) (now : Nat) (key : Bytes) :
    self.expiration now key =
      match self.get now key with
      | some record => .ok record.expiration
      | none => .error .entryNotFound := by
  rw [get, expiration]
  cases self[key]? with
  | none => rfl
  | some data =>
    obtain ⟨payload, expires, updated, created⟩ := data
    by_cases hexpired : expires ≤ now <;> cases payload <;>
      simp [DataContext.expired, DataContext.readRecord, DataContext.intoPayload,
        Payload.asOption, hexpired]

/-- The entries of a prefix iterator, by what is readable of them. -/
theorem prefixIterator_congr {cf cf' : ColumnFamily} {now : Nat} {start : Bytes}
    (h : ∀ k, dynamicPrefixExtractor k = dynamicPrefixExtractor start →
      cf.readAt now k = cf'.readAt now k) :
    (cf.prefixIterator start).map (fun entry => (entry.1, entry.2.readRecord now)) =
      (cf'.prefixIterator start).map fun entry => (entry.1, entry.2.readRecord now) := by
  let yields (k : Bytes) : Bool :=
    (compare start k).isLE && dynamicPrefixExtractor k = dynamicPrefixExtractor start
  refine part_congr (p := yields) fun k hk => h k ?_
  exact of_decide_eq_true (Bool.and_eq_true_iff.mp hk).2

theorem hcard_eq (self : ColumnFamily) (now : Nat) (key : GenericKey) :
    self.hcard now key = ((self.prefixIterator (storageKey key)).map
      fun entry => (entry.1, entry.2.readRecord now)).countP (·.2.isSome) := by
  rw [hcard, List.length_filterMap_eq_countP, List.countP_map]
  refine List.countP_congr fun entry _ => ?_
  simp [DataContext.readRecord]

theorem scan_eq (self : ColumnFamily) (now : Nat) (key : GenericKey) (count : Nat)
    (cursor : Option Bytes) :
    self.scan now key count cursor = collectItems count [] (skipCursor cursor
      (((self.prefixIterator (scanStart key cursor)).map
        fun entry => (entry.1, entry.2.readRecord now)).filterMap fun entry =>
          transpose (do
            let field ← deserialize (← splitExtKey entry.1)
            return entry.2.map fun record => ⟨field, record⟩))) := by
  rw [List.filterMap_map]
  rfl

end ColumnFamily

theorem scanStart_eq (key : GenericKey) (cursor : Option Bytes) :
    ∃ value, scanStart key cursor = extKeyFromSlice key value := by
  cases cursor with
  | none => exact ⟨[], (List.append_nil _).symm⟩
  | some cursor => exact ⟨serialize cursor, rfl⟩

theorem privateKey_ne_nil (ns : Namespace) (bytes : Bytes) : privateKey ns bytes ≠ [] :=
  List.cons_ne_nil _ _

theorem length_privateKey (ns : Namespace) (bytes : Bytes) :
    (privateKey ns bytes).length = bytes.length + 22 := by
  rw [privateKey, List.length_cons, List.length_append, ns.length_asBytes]
  omega

/-- The keys that requests for `key` read: those grouped with a key that starts with it. -/
def Reads (key : GenericKey) (k : Bytes) : Prop :=
  ∃ value, dynamicPrefixExtractor k = dynamicPrefixExtractor (extKeyFromSlice key value)

theorem Reads.position {key : GenericKey} {k : Bytes} (h : Reads key k) :
    k.take keyringPositionPrefixLength = positionBytes key.position := by
  obtain ⟨value, hvalue⟩ := h
  rw [← take_dynamicPrefixExtractor k, hvalue, take_dynamicPrefixExtractor, take_extKeyFromSlice]

/-- Unless a key is too long for its length field, all these keys start with it. -/
theorem Reads.isPrefix {hash : Bytes → UInt64} {ns : Namespace} {bytes k : Bytes}
    (hlen : bytes.length < 2 ^ 32 - 64) (h : Reads (key hash ns bytes) k) :
    storageKey (key hash ns bytes) <+: k := by
  have hpos : (key hash ns bytes).data ≠ [] := privateKey_ne_nil ns bytes
  have hlen : (key hash ns bytes).data.length < 2 ^ 32 := by
    rw [key, length_privateKey]
    omega
  obtain ⟨value, hvalue⟩ := h
  refine (dynamicPrefixExtractor_eq_iff hpos hlen).mp (hvalue.trans ?_)
  exact dynamicPrefixExtractor_toBytes hpos hlen value

/-- A response is determined by what is readable under the keys that the request reads. -/
theorem response_congr {hash : Bytes → UInt64} {now : Nat} {db db' : Backend} {request : Request}
    (h : ∀ name k, Reads (key hash request.ns request.key) k →
      (db.cf name).readAt now k = (db'.cf name).readAt now k) :
    (execute hash now db request).2 = (execute hash now db' request).2 := by
  have hget : ∀ name value,
      (db.cf name).get now (extKeyFromSlice (key hash request.ns request.key) value) =
        (db'.cf name).get now (extKeyFromSlice (key hash request.ns request.key) value) :=
    fun name value => by
      rw [ColumnFamily.get_eq, ColumnFamily.get_eq, h name _ ⟨value, rfl⟩]
  have hstring := hget .genericString []
  have hiter : ∀ value,
      ((db.cf .genericMap).prefixIterator
          (extKeyFromSlice (key hash request.ns request.key) value)).map
          (fun entry => (entry.1, entry.2.readRecord now)) =
        ((db'.cf .genericMap).prefixIterator
          (extKeyFromSlice (key hash request.ns request.key) value)).map
          fun entry => (entry.1, entry.2.readRecord now) :=
    fun value => ColumnFamily.prefixIterator_congr fun k hk => h .genericMap k ⟨value, hk⟩
  have hcard := hiter []
  rw [extKeyFromSlice, List.append_nil] at hstring hcard
  obtain ⟨ns, bytes, operation⟩ := request
  cases operation with
  | get => exact congrArg (fun record => Except.ok (Output.record record)) hstring
  | set record => rfl
  | del version => rfl
  | getExp =>
    simp only [execute, ColumnFamily.expiration_eq]
    rw [hstring]
  | setExp expiration version => rfl
  | hget field => exact congrArg (fun record => Except.ok (Output.record record)) (hget _ _)
  | hset entry => rfl
  | hdel field version => rfl
  | hgetExp field =>
    simp only [execute, ColumnFamily.expiration_eq, extKey]
    rw [hget]
  | hsetExp field expiration version => rfl
  | hcard =>
    simp only [execute, ColumnFamily.hcard_eq]
    rw [hcard]
  | hscan count cursor =>
    obtain ⟨value, hvalue⟩ := scanStart_eq (key hash ns bytes) cursor
    simp only [execute, ColumnFamily.scan_eq]
    rw [hvalue, hiter value]
    split <;> rfl

end Storage
end Wcn
