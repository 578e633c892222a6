import Wcn.Lib.Codecs
import Wcn.Lib.Outcomes
import Wcn.Cluster.NodeOperators

/-!
# Wcn.Cluster.OperatorData

Node operators in the bytes that the contract stores for them: `crates/cluster/src/node_operator.rs`,
`node.rs` and `client.rs`.

* `DataV0`, `DataV1` — the two schemas; the first has no private addresses. Addresses of nodes are
  encrypted with the digest of the peer id as tweak.
* `Operator` — an operator always has two nodes. Data that gives no such operator is replaced
  (`newCorrupted`).
* The peer ids of `libp2p`, the cipher FF1 and what an application makes of a node are parameters.
-/

namespace Wcn
namespace Cluster
namespace OperatorData

open Lib Postcard
open Contract (Address)

variable {P N S : Type}

/-! ## Nodes and clients -/

/-- `[u8; 32]`. -/
abbrev EncryptionKey := Vector UInt8 32

structure Ipv4Addr where
  octets : Vector UInt8 4
deriving DecidableEq

def Ipv4Addr.unspecified : Ipv4Addr := ⟨.replicate 4 0⟩

/-- What is used of `PeerId`. -/
structure PeerIds (P : Type) where
  toBytes : P → Bytes
  fromBytes : Bytes → Option P
  /-- Of the multihash. -/
  digest : P → Bytes
  fromBytes_toBytes : ∀ peerId, fromBytes (toBytes peerId) = some peerId
  length_toBytes : ∀ peerId, (toBytes peerId).length < 2 ^ 64

/-- `FF1<Aes256>` with radix 256 on strings of four numerals, by key and tweak. -/
structure FF1 where
  encrypt : EncryptionKey → Bytes → Vector (Fin 256) 4 → Vector (Fin 256) 4
  decrypt : EncryptionKey → Bytes → Vector (Fin 256) 4 → Vector (Fin 256) 4
  decrypt_encrypt : ∀ key tweak numerals, decrypt key tweak (encrypt key tweak numerals) = numerals

structure Node (P : Type) where
  peerId : P
  ipv4Addr : Ipv4Addr
  privateIpv4Addr : Option Ipv4Addr
  primaryPort : UInt16
  secondaryPort : UInt16
deriving DecidableEq

structure Client (P : Type) where
  peerId : P
  authorizedNamespaces : List UInt8
deriving DecidableEq

structure Name where
  str : String
deriving DecidableEq

namespace Name

/-- In bytes. -/
def maxLength : Nat := 32

/-- Names that are read from the chain are not checked. -/
def new (s : String) : Option Name := if s.utf8ByteSize ≤ maxLength then some ⟨s⟩ else none

end Name

/-- `Ipv4AddrNumeral`. -/
def Ipv4Addr.numerals (addr : Ipv4Addr) : Vector (Fin 256) 4 := addr.octets.map UInt8.toFin

def Ipv4Addr.fromNumerals (numerals : Vector (Fin 256) 4) : Ipv4Addr := ⟨numerals.map UInt8.ofFin⟩

theorem Ipv4Addr.fromNumerals_numerals (addr : Ipv4Addr) : fromNumerals addr.numerals = addr := by
  simp [fromNumerals, numerals, Function.comp_def]

theorem Ipv4Addr.numerals_fromNumerals (numerals : Vector (Fin 256) 4) :
    (fromNumerals numerals).numerals = numerals := by
  simp [fromNumerals, Ipv4Addr.numerals, Function.comp_def]

section Encryption

variable (ids : PeerIds P) (ff1 : FF1) (key : EncryptionKey)

def encryptIp (peerId : P) (ip : Ipv4Addr) : Ipv4Addr :=
  .fromNumerals (ff1.encrypt key (ids.digest peerId) ip.numerals)

def decryptIp (peerId : P) (ip : Ipv4Addr) : Ipv4Addr :=
  .fromNumerals (ff1.decrypt key (ids.digest peerId) ip.numerals)

def Node.encrypt (node : Node P) : Node P :=
  { node with
    ipv4Addr := encryptIp ids ff1 key node.peerId node.ipv4Addr
    privateIpv4Addr := node.privateIpv4Addr.map (encryptIp ids ff1 key node.peerId) }

def Node.decrypt (node : Node P) : Node P :=
  { node with
    ipv4Addr := decryptIp ids ff1 key node.peerId node.ipv4Addr
    privateIpv4Addr := node.privateIpv4Addr.map (decryptIp ids ff1 key node.peerId) }

theorem decryptIp_encryptIp (peerId : P) (ip : Ipv4Addr) :
    decryptIp ids ff1 key peerId (encryptIp ids ff1 key peerId ip) = ip := by
  rw [decryptIp, encryptIp, Ipv4Addr.numerals_fromNumerals, ff1.decrypt_encrypt,
    Ipv4Addr.fromNumerals_numerals]

theorem Node.decrypt_encrypt (node : Node P) :
    (node.encrypt ids ff1 key).decrypt ids ff1 key = node := by
  have hprivate : (node.privateIpv4Addr.map (encryptIp ids ff1 key node.peerId)).map
      (decryptIp ids ff1 key node.peerId) = node.privateIpv4Addr := by
    rw [Option.map_map, Function.comp_def]
    simp only [decryptIp_encryptIp, Option.map_id_fun']
    rfl
  simp only [Node.encrypt, Node.decrypt, decryptIp_encryptIp, hprivate]

end Encryption

/-! ## Schemas -/

structure NodeV0 (P : Type) where
  peerId : P
  ipv4Addr : Ipv4Addr
  primaryPort : UInt16
  secondaryPort : UInt16

structure NodeV1 (P : Type) where
  peerId : P
  ipv4Addr : Ipv4Addr
  privateIpv4Addr : Option Ipv4Addr
  primaryPort : UInt16
  secondaryPort : UInt16

structure ClientV0 (P : Type) where
  peerId : P
  authorizedNamespaces : List UInt8

def Node.fromV0 (node : NodeV0 P) : Node P :=
  ⟨node.peerId, node.ipv4Addr, none, node.primaryPort, node.secondaryPort⟩

def Node.fromV1 (node : NodeV1 P) : Node P :=
  ⟨node.peerId, node.ipv4Addr, node.privateIpv4Addr, node.primaryPort, node.secondaryPort⟩

def Node.intoV1 (node : Node P) : NodeV1 P :=
  ⟨node.peerId, node.ipv4Addr, node.privateIpv4Addr, node.primaryPort, node.secondaryPort⟩

def Client.fromV0 (client : ClientV0 P) : Client P := ⟨client.peerId, client.authorizedNamespaces⟩

def Client.intoV0 (client : Client P) : ClientV0 P := ⟨client.peerId, client.authorizedNamespaces⟩

structure DataV0 (P : Type) where
  name : Name
  nodes : List (NodeV0 P)
  clients : List (ClientV0 P)

structure DataV1 (P : Type) where
  name : Name
  nodes : List (NodeV1 P)
  clients : List (ClientV0 P)

namespace Schema

variable (ids : PeerIds P)

def peerId : Codec P :=
  Codec.bytes.checked ids.fromBytes ids.toBytes .serdeDeCustom ids.fromBytes_toBytes

def ipv4Addr : Codec Ipv4Addr := (Codec.array 4).iso Ipv4Addr.mk Ipv4Addr.octets fun _ => rfl

def name : Codec Name := Codec.string.iso Name.mk Name.str fun _ => rfl

def nodeV0 : Codec (NodeV0 P) :=
  ((peerId ids).pair (ipv4Addr.pair (Codec.u16.pair Codec.u16))).iso
    (fun (peerId, ipv4Addr, primaryPort, secondaryPort) =>
      ⟨peerId, ipv4Addr, primaryPort, secondaryPort⟩)
    (fun node => (node.peerId, node.ipv4Addr, node.primaryPort, node.secondaryPort)) fun _ => rfl

def nodeV1 : Codec (NodeV1 P) :=
  ((peerId ids).pair (ipv4Addr.pair (ipv4Addr.option.pair (Codec.u16.pair Codec.u16)))).iso
    (fun (peerId, ipv4Addr, privateIpv4Addr, primaryPort, secondaryPort) =>
      ⟨peerId, ipv4Addr, privateIpv4Addr, primaryPort, secondaryPort⟩)
    (fun node =>
      (node.peerId, node.ipv4Addr, node.privateIpv4Addr, node.primaryPort, node.secondaryPort))
    fun _ => rfl

def clientV0 : Codec (ClientV0 P) :=
  ((peerId ids).pair Codec.byte.list).iso
    (fun (peerId, authorizedNamespaces) => ⟨peerId, authorizedNamespaces⟩)
    (fun client => (client.peerId, client.authorizedNamespaces)) fun _ => rfl

def dataV0 : Codec (DataV0 P) :=
  (name.pair ((nodeV0 ids).list.pair (clientV0 ids).list)).iso
    (fun (name, nodes, clients) => ⟨name, nodes, clients⟩)
    (fun data => (data.name, data.nodes, data.clients)) fun _ => rfl

def dataV1 : Codec (DataV1 P) :=
  (name.pair ((nodeV1 ids).list.pair (clientV0 ids).list)).iso
    (fun (name, nodes, clients) => ⟨name, nodes, clients⟩)
    (fun data => (data.name, data.nodes, data.clients)) fun _ => rfl

end Schema

/-! ## Operators -/

def minNodes : Nat := 2

/-- Without the counter for load balancing. -/
structure Operator (P N : Type) where
  id : Address
  name : Name
  clients : List (Client P)
  nodes : List N
  minNodes_le : minNodes ≤ nodes.length

inductive TryFromSmartContractError where
  | emptyBuffer
  | codec (message : String)
  | unknownSchemaVersion (version : UInt8)
  | tooFewNodes (n : Nat)
deriving DecidableEq

/-- With the debug text of the error. -/
def codecError : DecodeError → TryFromSmartContractError
  | .number .deserializeUnexpectedEnd => .codec "DeserializeUnexpectedEnd"
  | .number .deserializeBadVarint => .codec "DeserializeBadVarint"
  | .deserializeBadOption => .codec "DeserializeBadOption"
  | .deserializeBadUtf8 => .codec "DeserializeBadUtf8"
  | .serdeDeCustom => .codec "SerdeDeCustom"

namespace Operator

def new (id : Address) (name : Name) (nodes : List N) (clients : List (Client P)) :
    Except TryFromSmartContractError (Operator P N) :=
  if h : nodes.length < minNodes then
    .error (.tooFewNodes nodes.length)
  else
    .ok ⟨id, name, clients, nodes, Nat.le_of_not_lt h⟩

variable (ids : PeerIds P) (ff1 : FF1) (key : EncryptionKey)

/-- The buffer has the size of what is written to it, so writing does not fail. -/
def tryIntoSc (operator : Operator P (Node P)) : SmartContract.NodeOperator where
  id := operator.id
  data := 1 :: (Schema.dataV1 ids).encode
    ⟨operator.name, operator.nodes.map fun node => (node.encrypt ids ff1 key).intoV1,
      operator.clients.map Client.intoV0⟩

variable (newNode : Address → Node P → N)

def tryFromSc (operator : SmartContract.NodeOperator) :
    Except TryFromSmartContractError (Operator P N) :=
  match operator.data with
  | [] => .error .emptyBuffer
  | schemaVersion :: bytes =>
    if schemaVersion = 0 then do
      let data ← ((Schema.dataV0 ids).fromBytes bytes).mapError codecError
      let nodes := data.nodes.map fun v0 => newNode operator.id ((Node.fromV0 v0).decrypt ids ff1 key)
      new operator.id data.name nodes (data.clients.map Client.fromV0)
    else if schemaVersion = 1 then do
      let data ← ((Schema.dataV1 ids).fromBytes bytes).mapError codecError
      let nodes := data.nodes.map fun v1 => newNode operator.id ((Node.fromV1 v1).decrypt ids ff1 key)
      new operator.id data.name nodes (data.clients.map Client.fromV0)
    else
      .error (.unknownSchemaVersion schemaVersion)

variable (random : Nat → P)

/-- With random peer ids. -/
def newCorrupted (id : Address) : Operator P N where
  id := id
  name := ⟨"CORRUPTED_DATA"⟩
  clients := []
  nodes := (List.range minNodes).map fun i =>
    newNode id ⟨random i, .unspecified, none, 0, 0⟩
  minNodes_le := by simp

def fromSc (operator : SmartContract.NodeOperator) : Operator P N :=
  match tryFromSc ids ff1 key newNode operator with
  | .ok operator => operator
  | .error _ => newCorrupted newNode random operator.id

/-! ## Reading back -/

/-- Every length is a `usize`. -/
def Fits (operator : Operator P N) : Prop :=
  (Codec.utf8 operator.name.str).length < 2 ^ 64 ∧ operator.nodes.length < 2 ^ 64 ∧
    operator.clients.length < 2 ^ 64 ∧
    ∀ client ∈ operator.clients, client.authorizedNamespaces.length < 2 ^ 64

variable {ids ff1 key newNode random}

theorem fits_dataV1 {operator : Operator P (Node P)} (h : operator.Fits) :
    (Schema.dataV1 ids).Fits ⟨operator.name,
      operator.nodes.map fun node => (node.encrypt ids ff1 key).intoV1,
      operator.clients.map Client.intoV0⟩ := by
  obtain ⟨hname, hnodes, hclients, hnamespaces⟩ := h
  have hnode : ∀ node : NodeV1 P, (Schema.nodeV1 ids).Fits node := fun node =>
    ⟨ids.length_toBytes node.peerId, trivial, fun _ _ => trivial, trivial, trivial⟩
  refine ⟨hname, ⟨?_, fun node _ => hnode node⟩, ?_, ?_⟩
  · rw [List.length_map]
    exact hnodes
  · rw [List.length_map]
    exact hclients
  · intro clientV0 hmem
    obtain ⟨client, hclient, rfl⟩ := List.mem_map.mp hmem
    exact ⟨ids.length_toBytes client.peerId, hnamespaces client hclient, fun _ _ => trivial⟩

theorem new_ok {id : Address} {name : Name} {nodes : List N} {clients : List (Client P)}
    {operator : Operator P N} (h : new id name nodes clients = .ok operator) : operator.id = id := by
  rw [new] at h
  split at h
  · cases h
  · cases h
    rfl

theorem tryFromSc_id {sc : SmartContract.NodeOperator} {operator : Operator P N}
    (h : tryFromSc ids ff1 key newNode sc = .ok operator) : operator.id = sc.id := by
  rw [tryFromSc] at h
  split at h
  · cases h
  · split at h
    · obtain ⟨_, _, h⟩ := bind_eq_ok.mp h
      exact new_ok h
    · split at h
      · obtain ⟨_, _, h⟩ := bind_eq_ok.mp h
        exact new_ok h
      · cases h

theorem fromSc_id (sc : SmartContract.NodeOperator) :
    (fromSc ids ff1 key newNode random sc).id = sc.id := by
  rw [fromSc]
  split
  · next h => exact tryFromSc_id h
  · rfl

theorem tryFromSc_tryIntoSc {operator : Operator P (Node P)} (h : operator.Fits) :
    ∃ hnodes, tryFromSc ids ff1 key newNode (operator.tryIntoSc ids ff1 key) =
      .ok ⟨operator.id, operator.name, operator.clients, operator.nodes.map (newNode operator.id),
        hnodes⟩ := by
  have hlen : minNodes ≤ (operator.nodes.map (newNode operator.id)).length := by
    rw [List.length_map]
    exact operator.minNodes_le
  have hnode : ∀ node : Node P,
      (Node.fromV1 (node.encrypt ids ff1 key).intoV1).decrypt ids ff1 key = node :=
    fun node => node.decrypt_encrypt ids ff1 key
  have hclient : ∀ client : Client P, Client.fromV0 client.intoV0 = client := fun _ => rfl
  refine ⟨hlen, ?_⟩
  rw [tryFromSc, tryIntoSc]
  dsimp only
  rw [if_neg (by decide), if_pos rfl, Codec.fromBytes_encode _ (fits_dataV1 h)]
  simp only [Except.mapError, bind, Except.bind, List.map_map, Function.comp_def, hnode, hclient,
    List.map_id', new]
  rw [dif_neg (Nat.not_lt.mpr hlen)]

end Operator

/-! ## Slots -/

section Slots

variable (ids : PeerIds P) (ff1 : FF1) (key : EncryptionKey) (newNode : Address → Node P → N)
variable (random : Nat → P) (settings : SmartContract.Settings → Except SettingsError S)

/-- A slot map of these operators keeps `none` for data that gives none. -/
def config : Config S (Operator P N) where
  settings := settings
  nodeOperator sc := (Operator.tryFromSc ids ff1 key newNode sc).toOption

/-- The operator that an entry of the slot map stands for. -/
def resolve (operator : NodeOperator (Operator P N)) : Operator P N :=
  operator.data.getD (.newCorrupted newNode random operator.id)

theorem resolve_fromSc (sc : SmartContract.NodeOperator) :
    resolve newNode random (NodeOperator.fromSc (config ids ff1 key newNode settings) sc) =
      Operator.fromSc ids ff1 key newNode random sc := by
  rw [resolve, NodeOperator.fromSc, config, Operator.fromSc]
  dsimp only
  cases Operator.tryFromSc ids ff1 key newNode sc <;> rfl

def DistinctIds (slots : List (Option SmartContract.NodeOperator)) : Prop :=
  ∀ {i j : Nat} {sc sc' : SmartContract.NodeOperator}, slots[i]? = some (some sc) →
    slots[j]? = some (some sc') → sc.id = sc'.id → i = j

/-- `from_slots` with decoded operators. -/
def fromScSlots (slots : List (Option SmartContract.NodeOperator)) :
    Except NodeOperators.CreationError (NodeOperators (Operator P N)) :=
  NodeOperators.fromSlots (slots.map (·.map (NodeOperator.fromSc (config ids ff1 key newNode settings))))

theorem exists_fromScSlots {slots : List (Option SmartContract.NodeOperator)}
    (hmin : minOperators ≤ slots.length) (hmax : slots.length ≤ maxOperators)
    (hdistinct : DistinctIds slots) :
    ∃ operators, fromScSlots ids ff1 key newNode settings slots = .ok operators ∧
      ∀ idx, (operators.getByIdx idx).map (resolve newNode random) =
        slots[idx.val]?.join.map (Operator.fromSc ids ff1 key newNode random) := by
  obtain ⟨operators, hoperators⟩ : ∃ operators,
      fromScSlots ids ff1 key newNode settings slots = .ok operators := by
    refine NodeOperators.exists_fromSlots ?_ ?_ fun hi hj hid => ?_
    · rwa [List.length_map]
    · rwa [List.length_map]
    · simp only [List.getElem?_map, Option.map_eq_some_iff] at hi hj
      obtain ⟨_, hi, sc, rfl, rfl⟩ := hi
      obtain ⟨_, hj, sc', rfl, rfl⟩ := hj
      exact hdistinct hi hj hid
  refine ⟨operators, hoperators, fun idx => ?_⟩
  rw [NodeOperators.getByIdx, (NodeOperators.fromSlots_ok hoperators).1, List.getElem?_map]
  cases hslot : slots[idx.val]? with
  | none => rfl
  | some slot =>
    cases slot with
    | none => rfl
    | some sc => exact congrArg some (resolve_fromSc ids ff1 key newNode random settings sc)

end Slots

/-- Operators survive the contract's storage, and whatever it stores gives an operator, so the slots of
the contract can always be read. -/
theorem operator_data_survives (ids : PeerIds P) (ff1 : FF1) (key : EncryptionKey)
    (newNode : Address → Node P → N) (random : Nat → P)
    (settings : SmartContract.Settings → Except SettingsError S) :
    (∀ operator : Operator P (Node P), operator.Fits →
      let decoded := Operator.fromSc ids ff1 key newNode random (operator.tryIntoSc ids ff1 key)
      decoded.id = operator.id ∧ decoded.name = operator.name ∧ decoded.clients = operator.clients ∧
        decoded.nodes = operator.nodes.map (newNode operator.id)) ∧
    (∀ sc : SmartContract.NodeOperator,
      (Operator.fromSc ids ff1 key newNode random sc).id = sc.id ∧
        2 ≤ (Operator.fromSc ids ff1 key newNode random sc).nodes.length) ∧
    ∀ slots : List (Option SmartContract.NodeOperator), DistinctIds slots →
      5 ≤ slots.length → slots.length ≤ 256 →
      ∃ operators, fromScSlots ids ff1 key newNode settings slots = .ok operators ∧
        ∀ idx, (operators.getByIdx idx).map (resolve newNode random) =
          slots[idx.val]?.join.map (Operator.fromSc ids ff1 key newNode random) := by
  refine ⟨fun operator hfits => ?_, fun sc => ⟨Operator.fromSc_id sc, Operator.minNodes_le _⟩,
    fun slots hdistinct hmin hmax =>
      exists_fromScSlots ids ff1 key newNode random settings hmin hmax hdistinct⟩
  obtain ⟨hnodes, hread⟩ := Operator.tryFromSc_tryIntoSc hfits
  have hdecoded : Operator.fromSc ids ff1 key newNode random (operator.tryIntoSc ids ff1 key) =
      ⟨operator.id, operator.name, operator.clients, operator.nodes.map (newNode operator.id),
        hnodes⟩ := by
    rw [Operator.fromSc, hread]
  rw [hdecoded]
  exact ⟨rfl, rfl, rfl, rfl⟩

/-- Peer ids of one byte. -/
def byteIds : PeerIds UInt8 where
  toBytes peerId := [peerId]
  fromBytes
    | [peerId] => some peerId
    | _ => none
  digest peerId := [peerId]
  fromBytes_toBytes _ := rfl
  length_toBytes peerId := Nat.one_lt_two_pow (by decide)

/-- A permutation of the numerals. -/
def reversing : FF1 where
  encrypt _ _ numerals := numerals.reverse
  decrypt _ _ numerals := numerals.reverse
  decrypt_encrypt _ _ numerals := numerals.reverse_reverse

def twoNodes : Operator UInt8 (Node UInt8) where
  id := 7
  name := ⟨"wcn"⟩
  clients := [⟨3, [0, 1]⟩]
  nodes := [⟨1, ⟨#v[10, 0, 0, 1]⟩, none, 3010, 3011⟩,
    ⟨2, ⟨#v[10, 0, 0, 2]⟩, some ⟨#v[192, 168, 0, 2]⟩, 1, 2⟩]
  minNodes_le := by decide

theorem operator_data_survives_twoNodes :
    (Operator.fromSc byteIds reversing (.replicate 32 0) (fun _ node => node) (fun _ => 0)
      (twoNodes.tryIntoSc byteIds reversing (.replicate 32 0))).nodes = twoNodes.nodes := by
  have hsurvives := (operator_data_survives byteIds reversing (.replicate 32 0) (fun _ node => node)
    (fun _ => 0) fun _ => .ok ()).1 twoNodes (by unfold Operator.Fits; decide)
  rw [hsurvives.2.2.2]
  exact List.map_id' _

theorem fromScSlots_too_many :
    ∃ slots : List (Option SmartContract.NodeOperator), DistinctIds slots ∧ 5 ≤ slots.length ∧
      ∀ operators, fromScSlots byteIds reversing (.replicate 32 0) (fun _ node => node)
        (fun _ => .ok ()) slots ≠ .ok operators := by
  refine ⟨List.replicate 257 none, ?_, ?_, fun operators => ?_⟩
  · intro i j sc sc' hi
    have hmem := List.eq_of_mem_replicate (List.mem_of_getElem? hi)
    cases hmem
  · rw [List.length_replicate]
    decide
  · intro h
    have hlen := (NodeOperators.length_of_fromSlots h).2
    rw [List.length_map, List.length_replicate] at hlen
    exact absurd hlen (by decide)

end OperatorData
end Cluster
end Wcn
