import Wcn.Lib.Outcomes
import Wcn.Storage.Values

/-!
# Wcn.Client.Encryption

The client encrypts values before it sends them, and decrypts the values of the outputs it receives
(`crates/client/src/encryption.rs`). Keys, fields, expirations and versions stay as they are.

The cipher is a parameter, with what `ring::aead` guarantees about it.

* `openInPlace_seal` — what was sealed opens with the same key, whatever the nonce.
* `encryption_transparent` — clients of one database that share a key read what they would have read
  without one. Two sealed copies of a value differ, so this does not carry over to a coordinator that
  compares the responses of several databases.
-/

namespace Wcn
namespace Client

open Lib Storage StorageApi

/-- `aead::NONCE_LEN`. -/
def nonceLen : Nat := 12

/-- `aead::CHACHA20_POLY1305.tag_len()`. -/
def tagLen : Nat := 16

/-- An authenticated cipher without additional data. Sealing fails for data that is too long. -/
structure Aead (K : Type) where
  sealInPlaceSeparateTag : K → Bytes → Bytes → Option (Bytes × Bytes)
  openInPlace : K → Bytes → Bytes → Option Bytes
  length_sealed : ∀ {key nonce data sealed tag},
    sealInPlaceSeparateTag key nonce data = some (sealed, tag) →
      sealed.length = data.length ∧ tag.length = tagLen
  open_sealed : ∀ {key nonce data sealed tag},
    sealInPlaceSeparateTag key nonce data = some (sealed, tag) →
      openInPlace key nonce (sealed ++ tag) = some data

/-- The errors of `encryption.rs`. -/
inductive EncryptionError where
  | data
  | secret
  | encrypt
  | decrypt
  deriving DecidableEq, Repr

/-- The errors of the client that executing an operation returns. -/
inductive Error where
  | noAvailableNodes
  | retriesExhausted
  | coordinatorApi (e : StorageApi.Error)
  | encryption (e : EncryptionError)
  | invalidResponseType
  deriving DecidableEq, Repr

variable {K : Type}

/-! ## Values -/

/-- `Key::new`. `derive` stands for the key derivation. -/
def Key.new (derive : Bytes → K) (secret : Bytes) : Except EncryptionError K :=
  if secret.isEmpty then .error .secret else .ok (derive secret)

/-- `Key::seal`. The nonce is random. -/
def Key.seal (aead : Aead K) (key : K) (nonce data : Bytes) : Except EncryptionError Bytes :=
  if data.isEmpty then
    .ok []
  else
    match aead.sealInPlaceSeparateTag key nonce data with
    | none => .error .encrypt
    | some (sealed, tag) => .ok (nonce ++ sealed ++ tag)

/-- `Key::open_in_place`. -/
def Key.openInPlace (aead : Aead K) (key : K) (data : Bytes) : Except EncryptionError Bytes :=
  if data.isEmpty then
    .ok data
  else if data.length < nonceLen + tagLen + 1 then
    .error .data
  else
    match aead.openInPlace key (data.take nonceLen) (data.drop nonceLen) with
    | none => .error .decrypt
    | some opened => .ok opened

theorem openInPlace_seal {aead : Aead K} {key : K} {nonce data sealed : Bytes}
    (hnonce : nonce.length = nonceLen) (h : Key.seal aead key nonce data = .ok sealed) :
    Key.openInPlace aead key sealed = .ok data := by
  cases data with
  | nil =>
    cases h
    rfl
  | cons byte data =>
    rw [Key.seal, if_neg (by simp)] at h
    cases hsealed : aead.sealInPlaceSeparateTag key nonce (byte :: data) with
    | none =>
      rw [hsealed] at h
      cases h
    | some result =>
      obtain ⟨text, tag⟩ := result
      rw [hsealed] at h
      cases h
      obtain ⟨htext, htag⟩ := aead.length_sealed hsealed
      have hlen : (nonce ++ text ++ tag).length = nonceLen + (data.length + 1) + tagLen := by
        rw [List.length_append, List.length_append, hnonce, htext, htag, List.length_cons]
      have hempty : ¬ (nonce ++ text ++ tag).isEmpty = true := by
        rw [List.isEmpty_iff_length_eq_zero, hlen]
        omega
      rw [Key.openInPlace, if_neg hempty, if_neg (by omega), List.append_assoc,
        List.take_left' hnonce, List.drop_left' hnonce, aead.open_sealed hsealed]

/-! ## Operations and outputs -/

def encryptRecord (aead : Aead K) (key : K) (nonce : Bytes) (record : Record Bytes) :
    Except EncryptionError (Record Bytes) := do
  let value ← Key.seal aead key nonce record.value
  .ok { record with value }

/-- `Encrypt for Operation`. -/
def encrypt (aead : Aead K) (key : K) (nonce : Bytes) :
    Operation Bytes → Except EncryptionError (Operation Bytes)
  | .set record => do .ok (.set (← encryptRecord aead key nonce record))
  | .hset entry => do .ok (.hset { entry with record := ← encryptRecord aead key nonce entry.record })
  | op => .ok op

def decryptRecord (aead : Aead K) (key : K) (record : Record Bytes) :
    Except EncryptionError (Record Bytes) := do
  let value ← Key.openInPlace aead key record.value
  .ok { record with value }

/-- `decrypt_output`. -/
def decryptOutput (aead : Aead K) (key : K) : Output Bytes → Except EncryptionError (Output Bytes)
  | .record (some record) => do .ok (.record (some (← decryptRecord aead key record)))
  | .mapPage page => do
    let entries ← page.entries.mapM fun entry => do
      .ok { entry with record := ← decryptRecord aead key entry.record }
    .ok (.mapPage { page with entries })
  | output => .ok output

/-- What `execute_internal` makes of a response. -/
def received (aead : Aead K) (encryptionKey : Option K) (response : Response Bytes) :
    Except Error (Output Bytes) := do
  let output ← response.mapError .coordinatorApi
  match encryptionKey with
  | none => .ok output
  | some key => (decryptOutput aead key output).mapError .encryption

/-! ## Runs -/

section Runs

variable {aead : Aead K} {key : K}

/-- The second value is the first one, encrypted. -/
def Opens (aead : Aead K) (key : K) (plain sealed : Bytes) : Prop :=
  Key.openInPlace aead key sealed = .ok plain

/-- The second request is the first one, encrypted with some nonce. -/
structure Encrypted (aead : Aead K) (key : K) (plain sealed : Nat × Request) : Prop where
  now : plain.1 = sealed.1
  ns : plain.2.ns = sealed.2.ns
  operation : ∃ nonce, nonce.length = nonceLen ∧
    encrypt aead key nonce plain.2.operation = .ok sealed.2.operation
  key : plain.2.key = sealed.2.key

theorem recordLike_encryptRecord {nonce : Bytes} (hnonce : nonce.length = nonceLen)
    {record sealed : Record Bytes} (h : encryptRecord aead key nonce record = .ok sealed) :
    RecordLike (Opens aead key) record sealed := by
  obtain ⟨value, hvalue, hsealed⟩ := bind_eq_ok.mp h
  cases hsealed
  exact ⟨openInPlace_seal hnonce hvalue, rfl, rfl⟩

theorem operationLike_encrypt {nonce : Bytes} (hnonce : nonce.length = nonceLen)
    {operation sealed : Operation Bytes} (h : encrypt aead key nonce operation = .ok sealed) :
    OperationLike (Opens aead key) operation sealed := by
  cases operation with
  | set record =>
    obtain ⟨record', hrecord, hsealed⟩ := bind_eq_ok.mp h
    cases hsealed
    exact .set (recordLike_encryptRecord hnonce hrecord)
  | hset entry =>
    obtain ⟨record', hrecord, hsealed⟩ := bind_eq_ok.mp h
    cases hsealed
    exact .hset ⟨rfl, recordLike_encryptRecord hnonce hrecord⟩
  | get => cases h; exact .get
  | del version => cases h; exact .del version
  | getExp => cases h; exact .getExp
  | setExp expiration version => cases h; exact .setExp expiration version
  | hget field => cases h; exact .hget field
  | hdel field version => cases h; exact .hdel field version
  | hgetExp field => cases h; exact .hgetExp field
  | hsetExp field expiration version => cases h; exact .hsetExp field expiration version
  | hcard => cases h; exact .hcard
  | hscan count cursor => cases h; exact .hscan count cursor

theorem Encrypted.like {plain sealed : Nat × Request} (h : Encrypted aead key plain sealed) :
    RequestLike (Opens aead key) plain sealed := by
  obtain ⟨nonce, hnonce, hoperation⟩ := h.operation
  exact ⟨h.now, h.ns, h.key, operationLike_encrypt hnonce hoperation⟩

theorem decryptRecord_like {record sealed : Record Bytes}
    (h : RecordLike (Opens aead key) record sealed) :
    decryptRecord aead key sealed = .ok record := by
  obtain ⟨value, expiration, version⟩ := record
  obtain ⟨hvalue, hexpiration, hversion⟩ := h
  dsimp only at hvalue hexpiration hversion
  refine bind_eq_ok.mpr ⟨value, hvalue, ?_⟩
  rw [hexpiration, hversion]

theorem decryptOutput_like {output sealed : Output Bytes}
    (h : OutputLike (Opens aead key) output sealed) :
    decryptOutput aead key sealed = .ok output := by
  cases h with
  | record hrecord =>
    cases hrecord with
    | none => rfl
    | some hrecord => exact bind_eq_ok.mpr ⟨_, decryptRecord_like hrecord, rfl⟩
  | mapPage hasNext hentries =>
    refine bind_eq_ok.mpr ⟨_, mapM_eq_ok.mpr (hentries.flip.imp fun sealed entry hentry => ?_), rfl⟩
    obtain ⟨field, record⟩ := entry
    obtain ⟨hfield, hrecord⟩ := hentry
    dsimp only at hfield
    subst hfield
    exact bind_eq_ok.mpr ⟨_, decryptRecord_like hrecord, rfl⟩
  | expiration expiration => rfl
  | cardinality card => rfl
  | none => rfl

theorem received_like {response sealed : Response Bytes}
    (h : ResponseLike (Opens aead key) response sealed) :
    received aead (some key) sealed = received aead none response := by
  cases h with
  | ok houtput => exact congrArg (Except.mapError Error.encryption) (decryptOutput_like houtput)
  | error e => rfl

/-- Clients of one database that encrypt with one key, whatever the nonces, receive what they would have
received had nobody encrypted. -/
theorem encryption_transparent (aead : Aead K) (key : K) (hash : Bytes → UInt64)
    {plain sealed : List (Nat × Request)} (hsealed : List.Forall₂ (Encrypted aead key) plain sealed)
    (hfits : ∀ request ∈ plain, request.2.Fits) :
    (outputs (serve hash) .empty sealed).map (received aead (some key)) =
      (outputs (serve hash) .empty plain).map (received aead none) := by
  have hlike := server_like hash hfits (hsealed.imp fun _ _ h => h.like)
  rw [← List.forall₂_eq_eq_eq, List.forall₂_map_left_iff, List.forall₂_map_right_iff]
  exact hlike.flip.imp fun _ _ h => received_like h

end Runs

/-- Every byte is combined with the key, which is also the tag. -/
def xorAead : Aead UInt8 where
  sealInPlaceSeparateTag key _ data := some (data.map (· ^^^ key), List.replicate tagLen key)
  openInPlace key _ data :=
    let length := data.length - tagLen
    if data.drop length = List.replicate tagLen key then
      some ((data.take length).map (· ^^^ key))
    else
      none
  length_sealed h := by
    cases h
    exact ⟨List.length_map _, List.length_replicate⟩
  open_sealed {key nonce data sealed tag} h := by
    cases h
    have hlen : (data.map (· ^^^ key) ++ List.replicate tagLen key).length - tagLen =
        (data.map (· ^^^ key)).length := by
      rw [List.length_append, List.length_replicate, Nat.add_sub_cancel]
    dsimp only
    rw [hlen, List.drop_left, if_pos rfl, List.take_left, List.map_map]
    refine congrArg some ((List.map_congr_left fun byte _ => ?_).trans (List.map_id data))
    rw [Function.comp_apply, UInt8.xor_assoc, UInt8.xor_self, UInt8.xor_zero]
    rfl

/-- Requests of two clients for a map. The second value is empty. -/
def mapRequests (first second third : Bytes) : List (Nat × Request) :=
  let ns : Namespace := ⟨Vector.replicate 21 1⟩
  [(40, ⟨ns, [5], .hset ⟨[2], first, 50, 3⟩⟩), (41, ⟨ns, [5], .hset ⟨[1], second, 50, 4⟩⟩),
    (42, ⟨ns, [5], .hset ⟨[3], third, 50, 5⟩⟩), (43, ⟨ns, [5], .hscan 5 none⟩)]

/-- The clients seal the same value with different nonces. -/
theorem encryption_transparent_xor :
    let nonce (byte : UInt8) : Bytes := List.replicate nonceLen byte
    let text : Bytes := [7 ^^^ 3, 8 ^^^ 3] ++ List.replicate tagLen 3
    (outputs (serve fun _ => 9) .empty (mapRequests (nonce 1 ++ text) [] (nonce 2 ++ text))).map
        (received xorAead (some 3)) =
      [.ok .none, .ok .none, .ok .none,
        .ok (.mapPage ⟨[⟨[1], [], 50, 4⟩, ⟨[2], [7, 8], 50, 3⟩, ⟨[3], [7, 8], 50, 5⟩], false⟩)] := by
  intro nonce text
  have hsealed : List.Forall₂ (Encrypted xorAead 3) (mapRequests [7, 8] [] [7, 8])
      (mapRequests (nonce 1 ++ text) [] (nonce 2 ++ text)) := by
    refine .cons ⟨rfl, rfl, ⟨nonce 1, ?_, ?_⟩, rfl⟩ (.cons ⟨rfl, rfl, ⟨nonce 1, ?_, ?_⟩, rfl⟩
      (.cons ⟨rfl, rfl, ⟨nonce 2, ?_, ?_⟩, rfl⟩ (.cons ⟨rfl, rfl, ⟨nonce 2, ?_, ?_⟩, rfl⟩ .nil)))
    all_goals rfl
  exact (encryption_transparent xorAead 3 (fun _ => 9) hsealed (by decide)).trans (by decide +kernel)

end Client
end Wcn
