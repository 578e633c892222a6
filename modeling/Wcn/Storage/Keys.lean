import Wcn.Lib.ByteStrings

/-!
# Wcn.Storage.Keys

The keys of the database, as `crates/rocks/src/db/schema/keys.rs`, `crates/rocks/src/db/cf.rs` and
`crates/db/src/storage.rs` lay them out:

  position (8 bytes) | length of the data (4 bytes) | kind (1) | namespace (21) | key | field

The length covers kind, namespace and key; the field is there in the map column family only and has
its own length in front. `dynamicPrefixExtractor` cuts a key before its field.
-/

namespace Wcn
namespace Storage

open Lib

/-- The errors of `crates/rocks` that the modelled functions return. -/
inductive RocksError where
  | deserialize
  | entryNotFound
  | backend (kind message : String)
  deriving DecidableEq, Repr

def RocksError.toString : RocksError → String
  | .deserialize => "Deserialization failed"
  | .entryNotFound => "Entry not found"
  | .backend _ message => "Backend error: " ++ message

/-! ## Layout -/

/-- Length of the position that a key starts with. -/
def keyringPositionPrefixLength : Nat := 8

structure GenericKey where
  position : UInt64
  data : Bytes
  deriving DecidableEq, Repr

inductive KeyError where
  | length (n : Nat)
  | readKeyringPosition
  | readBufferLength
  | invalidBuffer (expected actual : Nat)
  deriving DecidableEq, Repr

namespace GenericKey

/-- `ToBytes for GenericKey`. The length of the data is cut to 32 bits. -/
def toBytes (self : GenericKey) : Bytes :=
  toBe keyringPositionPrefixLength self.position.toNat ++
    (toBe 4 self.data.length ++ self.data)

/-- How many bytes of `data` are the key; a field may follow it. -/
def calculateSize (data : Bytes) : Except KeyError Nat :=
  if data.length < keyringPositionPrefixLength + 4 + 1 then
    .error (.length data.length)
  else
    match readBe keyringPositionPrefixLength data with
    | none => .error .readKeyringPosition
    | some (_, rest) =>
      match readBe 4 rest with
      | none => .error .readBufferLength
      | some (bufferLen, _) =>
        let expectedLen := keyringPositionPrefixLength + 4 + bufferLen
        if expectedLen ≤ data.length then
          .ok expectedLen
        else
          .error (.invalidBuffer expectedLen data.length)

/-- `FromBytes for GenericKey`. Every failure is `StorageError::Deserialize`. -/
def fromBytes (bytes : Bytes) : Option GenericKey :=
  match readBe keyringPositionPrefixLength bytes with
  | none => none
  | some (position, rest) =>
    match readBe 4 rest with
    | none => none
    | some (dataLen, slice) =>
      if slice.length ≠ dataLen then none else some ⟨UInt64.ofNat position, slice⟩

end GenericKey

/-- `dynamic_prefix_extractor`, of the map column family. Without the check of the prefix length
against the key's, which `calculateSize` has made. -/
def dynamicPrefixExtractor (data : Bytes) : Bytes :=
  if data.length = keyringPositionPrefixLength then
    data
  else
    match GenericKey.calculateSize data with
    | .ok prefixLen => data.take prefixLen
    | .error _ => data

/-- `serialize` for the fields of maps: `postcard` on `Vec<u8>`. -/
def serialize (field : Bytes) : Bytes := frameBytes field

def deserialize (data : Bytes) : Except RocksError Bytes :=
  match unframeBytes data with
  | some field => .ok field
  | none => .error .deserialize

def storageKey (key : GenericKey) : Bytes := key.toBytes

def extKeyFromSlice (key : GenericKey) (value : Bytes) : Bytes := storageKey key ++ value

def extKey (key : GenericKey) (field : Bytes) : Bytes := extKeyFromSlice key (serialize field)

/-- The key and how many bytes it took. -/
def parseKey (storageKey : Bytes) : Except RocksError (GenericKey × Nat) :=
  match GenericKey.calculateSize storageKey with
  | .error _ => .error .deserialize
  | .ok right =>
    match GenericKey.fromBytes (storageKey.take right) with
    | none => .error .deserialize
    | some parsedKey => .ok (parsedKey, right)

def parseExtKey (extKey : Bytes) : Except RocksError (GenericKey × Bytes) := do
  let (key, bytesProcessed) ← parseKey extKey
  let value ← deserialize (extKey.drop bytesProcessed)
  .ok (key, value)

/-- The part of a key that belongs to the field. -/
def splitExtKey (key : Bytes) : Except RocksError Bytes :=
  match GenericKey.calculateSize key with
  | .ok prefixLen => .ok (key.drop prefixLen)
  | .error _ => .error .deserialize

/-- The position in front of a key. -/
def keyPosition (key : Bytes) : UInt64 := UInt64.ofNat (ofBe (key.take keyringPositionPrefixLength))

/-! ## Namespaces -/

structure Namespace where
  bytes : Vector UInt8 21
  deriving DecidableEq, Repr

def Namespace.asBytes (self : Namespace) : Bytes := self.bytes.toList

def kindPrivate : UInt8 := 0

/-- `KeyWrapper::private`. -/
def privateKey (ns : Namespace) (bytes : Bytes) : Bytes := kindPrivate :: (ns.asBytes ++ bytes)

/-- `storage::key`. The position does not depend on the namespace. -/
def key (hash : Bytes → UInt64) (ns : Namespace) (bytes : Bytes) : GenericKey :=
  ⟨hash bytes, privateKey ns bytes⟩

@[simp] theorem Namespace.length_asBytes (ns : Namespace) : ns.asBytes.length = 21 :=
  ns.bytes.length_toList

theorem Namespace.asBytes_inj {ns ns' : Namespace} : ns.asBytes = ns'.asBytes ↔ ns = ns' := by
  constructor
  · intro h
    obtain ⟨bytes⟩ := ns
    obtain ⟨bytes'⟩ := ns'
    exact congrArg Namespace.mk (Vector.toList_inj.mp h)
  · rintro rfl
    rfl

/-! ## Prefixes -/

theorem dynamicPrefixExtractor_prefix (data : Bytes) : dynamicPrefixExtractor data <+: data := by
  rw [dynamicPrefixExtractor]
  split
  · exact List.prefix_refl data
  · split
    · exact List.take_prefix _ data
    · exact List.prefix_refl data

theorem length_toBytes (key : GenericKey) :
    key.toBytes.length = keyringPositionPrefixLength + 4 + key.data.length := by
  rw [GenericKey.toBytes, List.length_append, List.length_append, length_toBe, length_toBe,
    Nat.add_assoc]

/-- The size of a key is found whatever follows it, if its data is neither empty nor too long for
the length in front of it. -/
theorem calculateSize_toBytes {key : GenericKey} (hpos : key.data ≠ [])
    (hlen : key.data.length < 2 ^ 32) (rest : Bytes) :
    GenericKey.calculateSize (key.toBytes ++ rest) = .ok key.toBytes.length := by
  have hpos := List.length_pos_iff.mpr hpos
  have hsize := length_toBytes key
  have hmod : key.data.length % 256 ^ 4 = key.data.length := Nat.mod_eq_of_lt hlen
  rw [GenericKey.calculateSize, List.length_append, if_neg (by omega), GenericKey.toBytes,
    List.append_assoc, readBe_toBe]
  dsimp only
  rw [List.append_assoc, readBe_toBe, hmod]
  dsimp only
  rw [← hsize, ← GenericKey.toBytes, if_pos (Nat.le_add_right _ _)]

theorem dynamicPrefixExtractor_toBytes {key : GenericKey} (hpos : key.data ≠ [])
    (hlen : key.data.length < 2 ^ 32) (rest : Bytes) :
    dynamicPrefixExtractor (key.toBytes ++ rest) = key.toBytes := by
  have hne : (key.toBytes ++ rest).length ≠ keyringPositionPrefixLength := by
    rw [List.length_append, length_toBytes]
    omega
  rw [dynamicPrefixExtractor, if_neg hne, calculateSize_toBytes hpos hlen]
  exact List.take_left' rfl

/-- The extractor groups keys by what they start with. -/
theorem dynamicPrefixExtractor_eq_iff {key : GenericKey} (hpos : key.data ≠ [])
    (hlen : key.data.length < 2 ^ 32) {data : Bytes} :
    dynamicPrefixExtractor data = key.toBytes ↔ key.toBytes <+: data := by
  constructor
  · intro h
    rw [← h]
    exact dynamicPrefixExtractor_prefix data
  · rintro ⟨rest, rfl⟩
    exact dynamicPrefixExtractor_toBytes hpos hlen rest

theorem splitExtKey_extKeyFromSlice {key : GenericKey} (hpos : key.data ≠ [])
    (hlen : key.data.length < 2 ^ 32) (value : Bytes) :
    splitExtKey (extKeyFromSlice key value) = .ok value := by
  rw [splitExtKey, extKeyFromSlice, storageKey, calculateSize_toBytes hpos hlen]
  exact congrArg Except.ok (List.drop_left' rfl)

theorem deserialize_serialize {field : Bytes} (hlen : field.length < 2 ^ 64) :
    deserialize (serialize field) = .ok field := by
  have hread := unframeBytes_frameBytes hlen []
  rw [List.append_nil] at hread
  rw [deserialize, serialize, hread]

/-! ## Reading keys back -/

theorem fromBytes_toBytes {key : GenericKey} (hlen : key.data.length < 2 ^ 32) :
    GenericKey.fromBytes key.toBytes = some key := by
  have hposition : key.position.toNat % 256 ^ keyringPositionPrefixLength = key.position.toNat :=
    Nat.mod_eq_of_lt key.position.toNat_lt
  have hmod : key.data.length % 256 ^ 4 = key.data.length := Nat.mod_eq_of_lt hlen
  rw [GenericKey.fromBytes, GenericKey.toBytes, readBe_toBe, hposition]
  dsimp only
  rw [readBe_toBe, hmod]
  dsimp only
  rw [if_neg (not_not.mpr rfl), UInt64.ofNat_toNat]

theorem parseKey_extKeyFromSlice {key : GenericKey} (hpos : key.data ≠ [])
    (hlen : key.data.length < 2 ^ 32) (value : Bytes) :
    parseKey (extKeyFromSlice key value) = .ok (key, key.toBytes.length) := by
  rw [parseKey, extKeyFromSlice, storageKey, calculateSize_toBytes hpos hlen]
  dsimp only
  rw [List.take_left' rfl, fromBytes_toBytes hlen]

theorem parseExtKey_extKey {key : GenericKey} (hpos : key.data ≠ [])
    (hlen : key.data.length < 2 ^ 32) {field : Bytes} (hfield : field.length < 2 ^ 64) :
    parseExtKey (extKey key field) = .ok (key, field) := by
  have hdrop : (extKeyFromSlice key (serialize field)).drop key.toBytes.length = serialize field :=
    List.drop_left' rfl
  rw [parseExtKey, extKey, parseKey_extKeyFromSlice hpos hlen]
  simp only [bind, Except.bind, hdrop, deserialize_serialize hfield]

theorem storageKey_prefix_inj {key other : GenericKey} (hpos : key.data ≠ [])
    (hlen : key.data.length < 2 ^ 32) (hpos' : other.data ≠ []) (hlen' : other.data.length < 2 ^ 32)
    (h : storageKey key <+: storageKey other) : key = other := by
  -- the extractor finds the shorter key in the longer one, and the longer one itself
  have hshort := (dynamicPrefixExtractor_eq_iff hpos hlen).mpr h
  have hlong := (dynamicPrefixExtractor_eq_iff hpos' hlen').mpr (List.prefix_refl _)
  have hbytes : key.toBytes = other.toBytes := hshort.symm.trans hlong
  have hread := fromBytes_toBytes hlen
  rw [hbytes, fromBytes_toBytes hlen', Option.some.injEq] at hread
  exact hread.symm

/-! ## Positions -/

/-- `u64::to_be_bytes`. -/
def positionBytes (position : UInt64) : Bytes := toBe keyringPositionPrefixLength position.toNat

theorem take_extKeyFromSlice (key : GenericKey) (value : Bytes) :
    (extKeyFromSlice key value).take keyringPositionPrefixLength = positionBytes key.position := by
  rw [extKeyFromSlice, storageKey, GenericKey.toBytes, List.append_assoc]
  exact List.take_left' (length_toBe _ _)

theorem keyPosition_extKeyFromSlice (key : GenericKey) (value : Bytes) :
    keyPosition (extKeyFromSlice key value) = key.position := by
  have hlt : key.position.toNat < 256 ^ keyringPositionPrefixLength := key.position.toNat_lt
  rw [keyPosition, take_extKeyFromSlice, positionBytes, ofBe_toBe, Nat.mod_eq_of_lt hlt,
    UInt64.ofNat_toNat]

theorem compare_position (a b : UInt64) : compare a b = compare a.toNat b.toNat := by
  have hword : compare a b = compareOfLessAndEq a b := rfl
  have hnat : compare a.toNat b.toNat = compareOfLessAndEq a.toNat b.toNat := rfl
  simp only [hword, hnat, compareOfLessAndEq, UInt64.lt_iff_toNat_lt, UInt64.toNat_inj]

/-- Keys are ordered by their positions first. -/
theorem compare_storageKey {key other : GenericKey} (h : key.position ≠ other.position) :
    compare (storageKey key) (storageKey other) = compare key.position other.position := by
  have hlt : ∀ position : UInt64, position.toNat % 256 ^ keyringPositionPrefixLength = position.toNat :=
    fun position => Nat.mod_eq_of_lt position.toNat_lt
  have hne : compare key.position.toNat other.position.toNat ≠ .eq := fun heq =>
    h (UInt64.toNat_inj.mp (compare_eq_iff_eq.mp heq))
  rw [storageKey, storageKey, GenericKey.toBytes, GenericKey.toBytes, compare_toBe_append, hlt, hlt,
    compare_position]
  cases hcompare : compare key.position.toNat other.position.toNat with
  | lt => rfl
  | eq => exact absurd hcompare hne
  | gt => rfl

theorem le_of_calculateSize {data : Bytes} {n : Nat} (h : GenericKey.calculateSize data = .ok n) :
    keyringPositionPrefixLength ≤ n := by
  rw [GenericKey.calculateSize] at h
  split at h
  · cases h
  · split at h
    · cases h
    · split at h
      · cases h
      · dsimp only at h
        split at h
        · cases h
          exact Nat.le_trans (Nat.le_add_right _ 4) (Nat.le_add_right _ _)
        · cases h

/-- The extractor keeps the position, of keys of any length. -/
theorem take_dynamicPrefixExtractor (data : Bytes) :
    (dynamicPrefixExtractor data).take keyringPositionPrefixLength =
      data.take keyringPositionPrefixLength := by
  rw [dynamicPrefixExtractor]
  split
  · rfl
  · split
    · next n hn => rw [List.take_take, Nat.min_eq_left (le_of_calculateSize hn)]
    · rfl

/-- A key can be read back from everything that is stored under it. It is the prefix of all that, no
key is the prefix of another one, and positions come first in the order of keys. -/
theorem storage_keys_decode {key : GenericKey} (hpos : key.data ≠ [])
    (hlen : key.data.length < 2 ^ 32) :
    (∀ field : Bytes, field.length < 2 ^ 64 → parseExtKey (extKey key field) = .ok (key, field)) ∧
    dynamicPrefixExtractor (storageKey key) = storageKey key ∧
    (∀ field : Bytes, dynamicPrefixExtractor (extKey key field) = storageKey key) ∧
    ∀ other : GenericKey, other.data ≠ [] → other.data.length < 2 ^ 32 →
      (storageKey key <+: storageKey other → key = other) ∧
      (key.position ≠ other.position →
        compare (storageKey key) (storageKey other) = compare key.position other.position) := by
  refine ⟨fun field => parseExtKey_extKey hpos hlen, ?_,
    fun field => dynamicPrefixExtractor_toBytes hpos hlen (serialize field),
    fun other hpos' hlen' => ⟨storageKey_prefix_inj hpos hlen hpos' hlen', compare_storageKey⟩⟩
  exact (dynamicPrefixExtractor_eq_iff hpos hlen).mpr (List.prefix_refl _)

theorem storage_keys_decode_pair :
    parseExtKey (extKey ⟨1, [7]⟩ [8, 9]) = .ok (⟨1, [7]⟩, [8, 9]) ∧
    dynamicPrefixExtractor (extKey ⟨1, [7]⟩ [8, 9]) = storageKey ⟨1, [7]⟩ ∧
    compare (storageKey ⟨1, [7]⟩) (storageKey ⟨2, [0]⟩) = .lt := by
  obtain ⟨hparse, _, hextract, hother⟩ :=
    @storage_keys_decode ⟨1, [7]⟩ (by decide) (by decide)
  exact ⟨hparse [8, 9] (by decide), hextract [8, 9],
    (hother ⟨2, [0]⟩ (by decide) (by decide)).2 (by decide)⟩

end Storage
end Wcn
