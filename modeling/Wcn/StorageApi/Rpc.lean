import Wcn.Lib.Calls
import Wcn.Lib.Codecs
import Wcn.Replication.Repairs

/-!
# Wcn.StorageApi.Rpc

The Storage API over the network (`crates/storage_api/src/rpc/{mod,client,server}.rs`, on top of
`crates/rpc/src/{client,server,transport}.rs`). Clients, coordinators, replicas and databases all talk
to each other this way: an operation is encoded, sent in a frame, decoded, executed, and its result
goes back the same way. Every call has its own stream, which can break anywhere.

* `Unary`, `executeRef`, `handler` — the RPCs with one response, at the client and at the server.
* `relay` — what a result is after the way back: some kinds of errors become internal errors.
* `execute_remote` — a call executes the operation that was sent, at most once, and its result is the
  relayed one or an error of the transport.
* `read_data_remote` — a data stream arrives in order and unchanged up to where it breaks.
-/

namespace Wcn
namespace StorageApi
namespace Rpc

open Lib Lib.Postcard
open Storage (Namespace)
open Replication (KeyedOperation)

/-! ## Identifiers and errors -/

inductive Id where
  | get
  | set
  | del
  | setExp
  | getExp
  | hget
  | hset
  | hdel
  | hsetExp
  | hgetExp
  | hcard
  | hscan
  | readData
  | writeData
deriving DecidableEq, Repr

namespace Id

def toU8 : Id → UInt8
  | get => 0
  | set => 1
  | del => 2
  | setExp => 3
  | getExp => 4
  | hget => 5
  | hset => 6
  | hdel => 7
  | hsetExp => 8
  | hgetExp => 9
  | hcard => 10
  | hscan => 11
  | readData => 12
  | writeData => 13

def tryFrom (n : UInt8) : Option Id :=
  [get, set, del, setExp, getExp, hget, hset, hdel, hsetExp, hgetExp, hcard, hscan, readData,
    writeData][n.toNat]?

theorem tryFrom_toU8 (id : Id) : tryFrom id.toU8 = some id := by
  cases id <;> rfl

end Id

inductive ErrorCode where
  | internal
  | unauthorized
  | keyspaceVersionMismatch
  | invalidArgument
deriving DecidableEq, Repr

namespace ErrorCode

def toU8 : ErrorCode → UInt8
  | internal => 0
  | unauthorized => 1
  | keyspaceVersionMismatch => 2
  | invalidArgument => 3

def tryFrom (n : UInt8) : Option ErrorCode :=
  [internal, unauthorized, keyspaceVersionMismatch, invalidArgument][n.toNat]?

theorem tryFrom_toU8 (code : ErrorCode) : tryFrom code.toU8 = some code := by
  cases code <;> rfl

def ofKind : ErrorKind → ErrorCode
  | .unauthorized => unauthorized
  | .keyspaceVersionMismatch => keyspaceVersionMismatch
  | .invalidArgument => invalidArgument
  | .internal | .timeout | .transport | .unknown => internal

def kind : ErrorCode → ErrorKind
  | unauthorized => .unauthorized
  | keyspaceVersionMismatch => .keyspaceVersionMismatch
  | internal => .internal
  | invalidArgument => .invalidArgument

end ErrorCode

/-- `rpc::Error`, as it is sent. -/
structure Error where
  code : UInt8
  message : Option String
deriving DecidableEq

namespace Error

def ofError (err : StorageApi.Error) : Error := ⟨(ErrorCode.ofKind err.kind).toU8, err.message⟩

def toError (err : Error) : StorageApi.Error :=
  match ErrorCode.tryFrom err.code with
  | none =>
    (StorageApi.Error.new .unknown).withMessage
      ("Unexpected error code: " ++ toString err.code.toNat)
  | some code => ⟨code.kind, err.message⟩

/-- Codes of this version of the protocol are known. -/
theorem toError_mk (code : ErrorCode) (message : Option String) :
    toError ⟨code.toU8, message⟩ = ⟨code.kind, message⟩ := by
  rw [toError, ErrorCode.tryFrom_toU8]

end Error

/-! ## Messages -/

inductive DataType where
  | kv
  | map
deriving DecidableEq, Repr

structure DataFrame where
  dataType : DataType
  key : Bytes
  value : Bytes
deriving DecidableEq, Repr

inductive DataItem where
  | frame (frame : DataFrame)
  | done (n : Nat)
deriving DecidableEq, Repr

structure ReadDataRequest where
  keyrangeStart : Nat
  keyrangeEnd : Nat
  keyspaceVersion : Nat
deriving DecidableEq, Repr

inductive ReadDataResponse where
  | ack (res : Except Error Unit)
  | item (res : Except Error DataItem)

/-- The fields that all operations have, around those of one operation. -/
structure Message (α : Type) where
  ns : Namespace
  key : Bytes
  params : α
  keyspaceVersion : Option Nat

namespace Codec

open Postcard.Codec

variable {α : Type}

def namespaceBytes : Codec Namespace := (array 21).iso .mk Namespace.bytes fun _ => rfl

def record : Codec (Record Bytes) :=
  (bytes.pair (u64.pair u64)).iso (fun (value, expiration, version) => ⟨value, expiration, version⟩)
    (fun record => (record.value, record.expiration, record.version)) fun _ => rfl

def mapEntry : Codec (MapEntry Bytes) :=
  (bytes.pair record).iso (fun (field, record) => ⟨field, record⟩)
    (fun entry => (entry.field, entry.record)) fun _ => rfl

def mapPage : Codec (MapPage Bytes) :=
  ((list mapEntry).pair bool).iso (fun (entries, hasNext) => ⟨entries, hasNext⟩)
    (fun page => (page.entries, page.hasNext)) fun _ => rfl

def error : Codec Error :=
  (byte.pair (option string)).iso (fun (code, message) => ⟨code, message⟩)
    (fun err => (err.code, err.message)) fun _ => rfl

def result (codec : Codec α) : Codec (Except Error α) :=
  (codec.sum error).iso (Sum.elim .ok .error) (fun | .ok a => .inl a | .error e => .inr e)
    (by rintro (a | e) <;> rfl)

def message (params : Codec α) : Codec (Message α) :=
  (namespaceBytes.pair (bytes.pair (params.pair (option u64)))).iso
    (fun (ns, key, params, keyspaceVersion) => ⟨ns, key, params, keyspaceVersion⟩)
    (fun m => (m.ns, m.key, m.params, m.keyspaceVersion)) fun _ => rfl

def dataType : Codec DataType :=
  (unit.sum unit).iso (Sum.elim (fun _ => .kv) (fun _ => .map)) (fun | .kv => .inl () | .map => .inr ())
    (by rintro (_ | _) <;> rfl)

def dataFrame : Codec DataFrame :=
  (dataType.pair (bytes.pair bytes)).iso (fun (dataType, key, value) => ⟨dataType, key, value⟩)
    (fun frame => (frame.dataType, frame.key, frame.value)) fun _ => rfl

def dataItem : Codec DataItem :=
  (dataFrame.sum u64).iso (Sum.elim .frame .done) (fun | .frame frame => .inl frame | .done n => .inr n)
    (by rintro (_ | _) <;> rfl)

def readDataRequest : Codec ReadDataRequest :=
  ((u64.pair u64).pair u64).iso (fun ((a, b), version) => ⟨a, b, version⟩)
    (fun req => ((req.keyrangeStart, req.keyrangeEnd), req.keyspaceVersion)) fun _ => rfl

def readDataResponse : Codec ReadDataResponse :=
  ((result unit).sum (result dataItem)).iso (Sum.elim .ack .item)
    (fun | .ack res => .inl res | .item res => .inr res) (by rintro (_ | _) <;> rfl)

end Codec

/-! ## RPCs with one response -/

/-- The types in `Output`, each with its conversions. -/
structure OutputType where
  Value : Type
  codec : Codec Value
  into : Value → Output Bytes
  tryInto : Output Bytes → Option Value
  into_of_tryInto : ∀ output value, tryInto output = some value → into value = output

namespace OutputType

def record : OutputType where
  Value := Option (Record Bytes)
  codec := .option Codec.record
  into := .record
  tryInto
    | .record record => some record
    | _ => none
  into_of_tryInto output value h := by cases output <;> cases h; rfl

def expiration : OutputType where
  Value := Option Nat
  codec := .option .u64
  into := .expiration
  tryInto
    | .expiration expiration => some expiration
    | _ => none
  into_of_tryInto output value h := by cases output <;> cases h; rfl

def mapPage : OutputType where
  Value := MapPage Bytes
  codec := Codec.mapPage
  into := .mapPage
  tryInto
    | .mapPage page => some page
    | _ => none
  into_of_tryInto output value h := by cases output <;> cases h; rfl

def cardinality : OutputType where
  Value := Nat
  codec := .u64
  into := .cardinality
  tryInto
    | .cardinality card => some card
    | _ => none
  into_of_tryInto output value h := by cases output <;> cases h; rfl

def none : OutputType where
  Value := Unit
  codec := .unit
  into _ := .none
  tryInto
    | .none => some ()
    | _ => Option.none
  into_of_tryInto output value h := by cases output <;> cases h; rfl

end OutputType

/-- An RPC with one request and one response. -/
structure Unary where
  id : Id
  Params : Type
  params : Codec Params
  operation : Params → Operation Bytes
  output : OutputType

def Unary.requestCodec (self : Unary) : Codec (Message self.Params) := Codec.message self.params

def Unary.responseCodec (self : Unary) : Codec (Except Error self.output.Value) :=
  Codec.result self.output.codec

def get : Unary := ⟨.get, Unit, .unit, fun _ => .get, .record⟩

def set : Unary := ⟨.set, Record Bytes, Codec.record, .set, .none⟩

def del : Unary := ⟨.del, Nat, .u64, .del, .none⟩

def getExp : Unary := ⟨.getExp, Unit, .unit, fun _ => .getExp, .expiration⟩

def setExp : Unary :=
  ⟨.setExp, Nat × Nat, .pair .u64 .u64, fun (expiration, version) => .setExp expiration version, .none⟩

def hget : Unary := ⟨.hget, Bytes, .bytes, .hget, .record⟩

def hset : Unary := ⟨.hset, MapEntry Bytes, Codec.mapEntry, .hset, .none⟩

def hdel : Unary :=
  ⟨.hdel, Bytes × Nat, .pair .bytes .u64, fun (field, version) => .hdel field version, .none⟩

def hgetExp : Unary := ⟨.hgetExp, Bytes, .bytes, .hgetExp, .expiration⟩

def hsetExp : Unary :=
  ⟨.hsetExp, Bytes × Nat × Nat, .pair .bytes (.pair .u64 .u64),
    fun (field, expiration, version) => .hsetExp field expiration version, .none⟩

def hcard : Unary := ⟨.hcard, Unit, .unit, fun _ => .hcard, .cardinality⟩

def hscan : Unary :=
  ⟨.hscan, Nat × Option Bytes, .pair .u32 (.option .bytes), fun (count, cursor) => .hscan count cursor,
    .mapPage⟩

/-- The RPC for an operation, in the client. -/
def executeRef : Operation Bytes → (rpc : Unary) × rpc.Params
  | .get => ⟨get, ()⟩
  | .set record => ⟨set, record⟩
  | .del version => ⟨del, version⟩
  | .getExp => ⟨getExp, ()⟩
  | .setExp expiration version => ⟨setExp, (expiration, version)⟩
  | .hget field => ⟨hget, field⟩
  | .hset entry => ⟨hset, entry⟩
  | .hdel field version => ⟨hdel, (field, version)⟩
  | .hgetExp field => ⟨hgetExp, field⟩
  | .hsetExp field expiration version => ⟨hsetExp, (field, expiration, version)⟩
  | .hcard => ⟨hcard, ()⟩
  | .hscan count cursor => ⟨hscan, (count, cursor)⟩

/-- The RPC that the server handles under an identifier. -/
def handler : Id → Option Unary
  | .get => some get
  | .set => some set
  | .del => some del
  | .getExp => some getExp
  | .setExp => some setExp
  | .hget => some hget
  | .hset => some hset
  | .hdel => some hdel
  | .hgetExp => some hgetExp
  | .hsetExp => some hsetExp
  | .hcard => some hcard
  | .hscan => some hscan
  | .readData | .writeData => none

/-- Client and server mean the same by an identifier. -/
theorem handler_executeRef (operation : Operation Bytes) :
    handler (executeRef operation).1.id = some (executeRef operation).1 ∧
      (executeRef operation).1.operation (executeRef operation).2 = operation := by
  cases operation <;> exact ⟨rfl, rfl⟩

/-! ## The server -/

/-- What a server gives access to. -/
structure Api where
  execute : KeyedOperation → Response Bytes
  readData : ReadDataRequest → Except StorageApi.Error (List (Except StorageApi.Error DataItem))

inductive Job where
  | execute (rpc : Unary) (operation : KeyedOperation)
  | readData (req : ReadDataRequest)

namespace Unary

def request (self : Unary) (message : Message self.Params) : KeyedOperation :=
  ⟨⟨message.ns, message.key, self.operation message.params⟩, message.keyspaceVersion⟩

def readRequest (self : Unary) (payload : Bytes) : Option Job :=
  (self.requestCodec.fromBytes payload).toOption.map fun message => .execute self (self.request message)

/-- `send_result` of a responder, up to the encoding. -/
def sendResult (self : Unary) : Response Bytes → Except Error self.output.Value
  | .ok output =>
    match self.output.tryInto output with
    | some value => .ok value
    | none => .error ⟨ErrorCode.internal.toU8, none⟩
  | .error err => .error (.ofError err)

end Unary

/-- What `read_data` of the server sends: whether there is a stream, then its items. -/
def readDataResponses :
    Except StorageApi.Error (List (Except StorageApi.Error DataItem)) → List ReadDataResponse
  | .error err => [.ack (.error (.ofError err))]
  | .ok items => .ack (.ok ()) :: items.map fun item => .item (item.mapError .ofError)

/-- How the server reads the request of an RPC. `WriteData` has a stream of requests instead. -/
def accept : Id → Option (Bytes → Option Job)
  | .readData => some fun payload => (Codec.readDataRequest.fromBytes payload).toOption.map .readData
  | .writeData => none
  | id => (handler id).map Unary.readRequest

def service (api : Api) : Calls.Service Job where
  route n := (Id.tryFrom n).bind accept
  responses
    | .execute rpc operation => [rpc.responseCodec.encode (rpc.sendResult (api.execute operation))]
    | .readData req => (readDataResponses (api.readData req)).map Codec.readDataResponse.encode

/-! ## The client -/

/-- The default of `LengthDelimitedCodec`. -/
def maxFrameLength : Nat := 8 * 1024 * 1024

/-- How the errors of the client are printed. -/
structure Texts where
  failure : Calls.Failure → String
  codec : DecodeError → String
  wrongResponse : String

def transport (text : String) : StorageApi.Error :=
  (StorageApi.Error.new .transport).withMessage ("wcn_rpc::client::Error: " ++ text)

def requestMessage (operation : KeyedOperation) : Message (executeRef operation.operation).1.Params :=
  ⟨operation.ns, operation.key, (executeRef operation.operation).2, operation.keyspaceVersion⟩

def sendRequest (operation : KeyedOperation) : Calls.State Job :=
  let rpc := (executeRef operation.operation).1
  Calls.start maxFrameLength rpc.id.toU8 (rpc.requestCodec.encode (requestMessage operation))

/-- `into` of the client. -/
def Unary.into (self : Unary) : Except Error self.output.Value → Response Bytes
  | .ok value => .ok (self.output.into value)
  | .error err => .error err.toError

/-- What `execute_ref` returns, as soon as it does. Only the first response counts. -/
def executed (texts : Texts) (operation : Operation Bytes) (s : Calls.State Job) :
    Option (Response Bytes) :=
  let rpc := (executeRef operation).1
  match s.got, s.failure with
  | payload :: _, _ =>
    match rpc.responseCodec.fromBytes payload with
    | .ok res => some (rpc.into res)
    | .error err => some (.error (transport ("Codec: " ++ texts.codec err)))
  | [], some failure => some (.error (transport (texts.failure failure)))
  | [], none => none

/-! ## What a call does -/

/-- The kinds of errors that have no code of their own. -/
def relayKind : ErrorKind → ErrorKind
  | .timeout | .transport | .unknown => .internal
  | kind => kind

def relayError (err : StorageApi.Error) : StorageApi.Error := { err with kind := relayKind err.kind }

/-- The outputs that an operation may have. -/
def HasType : Operation Bytes → Output Bytes → Bool
  | .get, .record _ | .hget _, .record _ => true
  | .getExp, .expiration _ | .hgetExp _, .expiration _ => true
  | .hcard, .cardinality _ => true
  | .hscan _ _, .mapPage _ => true
  | .set _, .none | .del _, .none | .setExp _ _, .none => true
  | .hset _, .none | .hdel _ _, .none | .hsetExp _ _ _, .none => true
  | _, _ => false

/-- A result after it went over the network. -/
def relay (operation : Operation Bytes) : Response Bytes → Response Bytes
  | .ok output => if HasType operation output then .ok output else .error StorageApi.Error.internal
  | .error err => .error (relayError err)

theorem toError_ofError (err : StorageApi.Error) : (Error.ofError err).toError = relayError err := by
  obtain ⟨kind, message⟩ := err
  rw [Error.ofError, Error.toError_mk]
  cases kind <;> rfl

theorem hasType_iff (operation : Operation Bytes) (output : Output Bytes) :
    HasType operation output = ((executeRef operation).1.output.tryInto output).isSome := by
  cases operation <;> cases output <;> rfl

theorem into_sendResult (operation : Operation Bytes) (response : Response Bytes) :
    (executeRef operation).1.into ((executeRef operation).1.sendResult response) =
      relay operation response := by
  cases response with
  | ok output =>
    rw [relay, Unary.sendResult, hasType_iff]
    cases hvalue : (executeRef operation).1.output.tryInto output with
    | none => rfl
    | some value =>
      rw [Option.isSome_some, if_pos rfl]
      exact congrArg Except.ok ((executeRef operation).1.output.into_of_tryInto output value hvalue)
  | error err => exact congrArg Except.error (toError_ofError err)

/-- Lengths and numbers of the operation are of the sizes that they are sent with. -/
def Sendable (operation : KeyedOperation) : Prop :=
  (executeRef operation.operation).1.requestCodec.Fits (requestMessage operation)

/-- And those of a result. -/
def Answerable (operation : Operation Bytes) (response : Response Bytes) : Prop :=
  (executeRef operation).1.responseCodec.Fits ((executeRef operation).1.sendResult response)

def requestLength (operation : KeyedOperation) : Nat :=
  ((executeRef operation.operation).1.requestCodec.encode (requestMessage operation)).length

def responseLength (operation : Operation Bytes) (response : Response Bytes) : Nat :=
  ((executeRef operation).1.responseCodec.encode ((executeRef operation).1.sendResult response)).length

/-- What the server performs for an operation. -/
def job (operation : KeyedOperation) : Job := .execute (executeRef operation.operation).1 operation

section Execute

variable {api : Api} {operation : KeyedOperation} {texts : Texts} {s : Calls.State Job}

theorem accept_of_handler {id : Id} {rpc : Unary} (h : handler id = some rpc) :
    accept id = some rpc.readRequest := by
  cases id <;> cases h <;> rfl

theorem route_execute (api : Api) : (service api).route (executeRef operation.operation).1.id.toU8 =
    some (executeRef operation.operation).1.readRequest := by
  dsimp only [service]
  rw [Id.tryFrom_toU8, Option.bind_some, accept_of_handler (handler_executeRef _).1]

theorem readRequest_encode (h : Sendable operation) :
    (executeRef operation.operation).1.readRequest
      ((executeRef operation.operation).1.requestCodec.encode (requestMessage operation)) =
      some (job operation) := by
  rw [Unary.readRequest, Codec.fromBytes_encode _ h]
  simp only [Except.toOption, Option.map_some, Unary.request, requestMessage, job,
    (handler_executeRef operation.operation).2]

theorem maxFrameLength_lt : maxFrameLength < 2 ^ 32 := by decide

/-- The first response is the relayed result. -/
theorem executed_of_got (h : Answerable operation.operation (api.execute operation))
    {payload : Bytes} {rest : List Bytes} (hgot : s.got = payload :: rest)
    (hresponses : s.got <+: (service api).responses (job operation)) :
    executed texts operation.operation s = some (relay operation.operation (api.execute operation)) := by
  rw [hgot] at hresponses
  obtain ⟨rfl, -⟩ := List.cons_prefix_cons.mp hresponses
  simp only [executed, hgot, Codec.fromBytes_encode _ h, into_sendResult]

/-- A call over the network is the call itself, made once, or an error of the transport. In the latter
case it may have been made as well. -/
theorem execute_remote (api : Api) (texts : Texts) (operation : KeyedOperation)
    (hsend : Sendable operation) (hanswer : Answerable operation.operation (api.execute operation)) :
    (∀ s, Run (Calls.Step maxFrameLength (service api)) (sendRequest operation) s →
      (s.performed = [] ∨ s.performed = [job operation]) ∧
      ∀ response, executed texts operation.operation s = some response →
        s.performed = [job operation] ∧
          response = relay operation.operation (api.execute operation) ∨
        ∃ failure, s.failure = some failure ∧
          response = .error (transport (texts.failure failure))) ∧
    (requestLength operation ≤ maxFrameLength →
      responseLength operation.operation (api.execute operation) ≤ maxFrameLength →
      ∃ s, Run (Calls.Step maxFrameLength (service api)) (sendRequest operation) s ∧
        executed texts operation.operation s =
          some (relay operation.operation (api.execute operation))) := by
  have hroute : (service api).route (executeRef operation.operation).1.id.toU8 =
      some (executeRef operation.operation).1.readRequest := route_execute api
  have hjob := readRequest_encode hsend
  refine ⟨fun s hrun => ?_, fun hrequest hresponse => ?_⟩
  · have hgot := Calls.got_of_run maxFrameLength_lt hroute hjob hrun
    refine ⟨hgot.imp And.left And.left, fun response hresponse => ?_⟩
    cases hpayloads : s.got with
    | nil =>
      cases hfailure : s.failure with
      | none =>
        rw [executed, hpayloads, hfailure] at hresponse
        cases hresponse
      | some failure =>
        rw [executed, hpayloads, hfailure] at hresponse
        exact .inr ⟨failure, rfl, (Option.some.inj hresponse).symm⟩
    | cons payload rest =>
      rcases hgot with ⟨-, hnil⟩ | ⟨hperformed, hresponses⟩
      · rw [hpayloads] at hnil
        cases hnil
      · rw [executed_of_got hanswer hpayloads hresponses] at hresponse
        exact .inl ⟨hperformed, (Option.some.inj hresponse).symm⟩
  · have hwithin : Calls.Within maxFrameLength ((service api).responses (job operation)) :=
      List.forall_mem_singleton.mpr hresponse
    obtain ⟨s, hrun, -, hgot, -⟩ :=
      Calls.exists_run maxFrameLength_lt hroute hjob hrequest hwithin
    exact ⟨s, hrun, executed_of_got hanswer hgot (hgot ▸ List.prefix_rfl)⟩

/-- A value that is not there, read over the network. -/
theorem execute_remote_get :
    ∃ s, Run (Calls.Step maxFrameLength (service
        ⟨fun _ => .ok (.record none), fun _ => .error StorageApi.Error.internal⟩))
        (sendRequest ⟨⟨⟨.replicate 21 0⟩, [1, 2], .get⟩, some 3⟩) s ∧
      executed ⟨fun _ => "", fun _ => "", ""⟩ .get s = some (.ok (.record none)) :=
  (execute_remote ⟨fun _ => .ok (.record none), fun _ => .error StorageApi.Error.internal⟩
    ⟨fun _ => "", fun _ => "", ""⟩ ⟨⟨⟨.replicate 21 0⟩, [1, 2], .get⟩, some 3⟩
    ⟨trivial, (by decide : 2 < 2 ^ 64), trivial, by rintro _ ⟨⟩; exact (by decide : 3 < 2 ^ 64)⟩
    (by rintro _ ⟨⟩)).2 (by decide +kernel) (by decide +kernel)

end Execute

/-! ## Data streams -/

def sendReadData (req : ReadDataRequest) : Calls.State Job :=
  Calls.start maxFrameLength Id.readData.toU8 (Codec.readDataRequest.encode req)

/-- An item of the stream that `read_data` returns. -/
def dataItem (texts : Texts) (payload : Bytes) : Except StorageApi.Error DataItem :=
  match Codec.readDataResponse.fromBytes payload with
  | .ok (.item res) => res.mapError Error.toError
  | .ok (.ack _) => .error (transport ("Wrong response: " ++ texts.wrongResponse))
  | .error err => .error (transport ("Codec: " ++ texts.codec err))

/-- The stream just ends when the server closes it after an item. -/
def streamEnd (texts : Texts) : Option Calls.Failure → List (Except StorageApi.Error DataItem)
  | none | some .ended => []
  | some failure => [.error (transport (texts.failure failure))]

/-- What `read_data` returns, as soon as it does, with the items that have arrived so far. -/
def dataStream (texts : Texts) (s : Calls.State Job) :
    Option (Except StorageApi.Error (List (Except StorageApi.Error DataItem))) :=
  match s.got, s.failure with
  | [], none => none
  | [], some failure => some (.error (transport (texts.failure failure)))
  | ack :: items, failure =>
    match Codec.readDataResponse.fromBytes ack with
    | .ok (.ack (.ok ())) => some (.ok (items.map (dataItem texts) ++ streamEnd texts failure))
    | .ok (.ack (.error err)) => some (.error err.toError)
    | .ok (.item _) => some (.error (transport ("Wrong response: " ++ texts.wrongResponse)))
    | .error err => some (.error (transport ("Codec: " ++ texts.codec err)))

/-- A stream after it went over the network. -/
def relayStream : Except StorageApi.Error (List (Except StorageApi.Error DataItem)) →
    Except StorageApi.Error (List (Except StorageApi.Error DataItem))
  | .error err => .error (relayError err)
  | .ok items => .ok (items.map (·.mapError relayError))

/-- The items of a database that is read to its end. -/
def transfer (frames : List DataFrame) (n : Nat) : List (Except StorageApi.Error DataItem) :=
  frames.map (fun frame => .ok (.frame frame)) ++ [.ok (.done n)]

section ReadData

variable {api : Api} {req : ReadDataRequest} {texts : Texts} {s : Calls.State Job}

theorem accept_readData (api : Api) (h : Codec.readDataRequest.Fits req) :
    ∃ decode, (service api).route Id.readData.toU8 = some decode ∧
      decode (Codec.readDataRequest.encode req) = some (.readData req) := by
  refine ⟨fun payload => (Codec.readDataRequest.fromBytes payload).toOption.map .readData, rfl, ?_⟩
  dsimp only
  rw [Codec.fromBytes_encode _ h]
  rfl

theorem dataItem_encode {item : Except StorageApi.Error DataItem}
    (h : Codec.readDataResponse.Fits (.item (item.mapError .ofError))) :
    dataItem texts (Codec.readDataResponse.encode (.item (item.mapError .ofError))) =
      item.mapError relayError := by
  rw [dataItem, Codec.fromBytes_encode _ h]
  cases item with
  | ok item => rfl
  | error err => exact congrArg Except.error (toError_ofError err)

/-- The answer of the server, as far as it has arrived. -/
theorem dataStream_of_got (hfits : ∀ res ∈ readDataResponses (api.readData req),
      Codec.readDataResponse.Fits res)
    (hgot : s.got <+: (service api).responses (.readData req))
    {stream : Except StorageApi.Error (List (Except StorageApi.Error DataItem))}
    (hstream : dataStream texts s = some stream) :
    (∃ failure, s.failure = some failure ∧ stream = .error (transport (texts.failure failure))) ∨
    (∃ err, api.readData req = .error err ∧ stream = .error (relayError err)) ∨
    ∃ items part, api.readData req = .ok items ∧ part <+: items.map (·.mapError relayError) ∧
      stream = .ok (part ++ streamEnd texts s.failure) := by
  dsimp only [service] at hgot
  cases hpayloads : s.got with
  | nil =>
    cases hfailure : s.failure with
    | none =>
      rw [dataStream, hpayloads, hfailure] at hstream
      cases hstream
    | some failure =>
      rw [dataStream, hpayloads, hfailure] at hstream
      exact .inl ⟨failure, rfl, (Option.some.inj hstream).symm⟩
  | cons ack payloads =>
    rw [hpayloads] at hgot
    simp only [dataStream, hpayloads] at hstream
    cases hsource : api.readData req with
    | error err =>
      rw [hsource] at hgot hfits
      obtain ⟨rfl, -⟩ := List.cons_prefix_cons.mp hgot
      rw [Codec.fromBytes_encode _ (hfits _ List.mem_cons_self)] at hstream
      refine .inr (.inl ⟨err, rfl, ?_⟩)
      rw [← Option.some.inj hstream, toError_ofError]
    | ok items =>
      rw [hsource] at hgot hfits
      obtain ⟨hack, hitems⟩ := List.forall_mem_cons.mp hfits
      rw [readDataResponses, List.map_cons, List.cons_prefix_cons, List.map_map] at hgot
      obtain ⟨rfl, hpart⟩ := hgot
      rw [Codec.fromBytes_encode _ hack] at hstream
      rw [List.prefix_iff_eq_take, ← List.map_take] at hpart
      refine .inr (.inr ⟨items, (items.take payloads.length).map (·.mapError relayError), rfl,
        (List.take_prefix _ _).map _, ?_⟩)
      have hmap : payloads.map (dataItem texts) =
          (items.take payloads.length).map (·.mapError relayError) := by
        rw [hpart, List.map_map, ← hpart]
        refine List.map_congr_left fun item hitem => dataItem_encode (hitems _ ?_)
        exact List.mem_map_of_mem (List.mem_of_mem_take hitem)
      rw [← Option.some.inj hstream, hmap]

/-- All of the answer. -/
theorem dataStream_of_got_all (hfits : ∀ res ∈ readDataResponses (api.readData req),
      Codec.readDataResponse.Fits res)
    (hgot : s.got = (service api).responses (.readData req)) (hfailure : s.failure = some .ended) :
    dataStream texts s = some (relayStream (api.readData req)) := by
  dsimp only [service] at hgot
  cases hsource : api.readData req with
  | error err =>
    rw [hsource] at hgot hfits
    simp only [dataStream, hgot, readDataResponses, List.map_cons,
      Codec.fromBytes_encode _ (hfits _ List.mem_cons_self), toError_ofError, relayStream]
  | ok items =>
    rw [hsource] at hgot hfits
    obtain ⟨hack, hitems⟩ := List.forall_mem_cons.mp hfits
    simp only [dataStream, hgot, hfailure, readDataResponses, List.map_cons,
      Codec.fromBytes_encode _ hack, List.map_map, streamEnd, List.append_nil, relayStream]
    refine congrArg (some ∘ Except.ok) (List.map_congr_left fun item hitem => ?_)
    exact dataItem_encode (hitems _ (List.mem_map_of_mem hitem))

/-- The first items of a transfer with its last one are all of them. -/
theorem eq_of_done_mem {frames : List DataFrame} {n m : Nat}
    {part : List (Except StorageApi.Error DataItem)} (hpart : part <+: transfer frames n)
    (hdone : .ok (.done m) ∈ part) : part = transfer frames n := by
  rcases List.prefix_concat_iff.mp hpart with heq | hframes
  · exact heq
  · obtain ⟨frame, -, hframe⟩ := List.mem_map.mp (hframes.subset hdone)
    cases hframe

/-- A data stream over the network is the stream itself up to where it breaks. A client that finds the
last item of a transfer in it has the whole transfer. -/
theorem read_data_remote (api : Api) (texts : Texts) (req : ReadDataRequest)
    (hreq : Codec.readDataRequest.Fits req)
    (hfits : ∀ res ∈ readDataResponses (api.readData req), Codec.readDataResponse.Fits res) :
    (∀ s, Run (Calls.Step maxFrameLength (service api)) (sendReadData req) s →
      (s.performed = [] ∨ s.performed = [.readData req]) ∧
      ∀ stream, dataStream texts s = some stream →
        (∃ failure, s.failure = some failure ∧
          stream = .error (transport (texts.failure failure))) ∨
        (∃ err, api.readData req = .error err ∧ stream = .error (relayError err)) ∨
        ∃ items part, api.readData req = .ok items ∧ part <+: items.map (·.mapError relayError) ∧
          stream = .ok (part ++ streamEnd texts s.failure) ∧
          ∀ frames n m, items = transfer frames n → .ok (.done m) ∈ part → part = items) ∧
    ((Codec.readDataRequest.encode req).length ≤ maxFrameLength →
      Calls.Within maxFrameLength ((service api).responses (.readData req)) →
      ∃ s, Run (Calls.Step maxFrameLength (service api)) (sendReadData req) s ∧
        dataStream texts s = some (relayStream (api.readData req))) := by
  obtain ⟨decode, hroute, hjob⟩ := accept_readData api hreq
  refine ⟨fun s hrun => ?_, fun hrequest hwithin => ?_⟩
  · have hgot := Calls.got_of_run maxFrameLength_lt hroute hjob hrun
    have hgot' : s.got <+: (service api).responses (.readData req) := by
      rcases hgot with ⟨-, hnil⟩ | ⟨-, hresponses⟩
      · rw [hnil]
        exact List.nil_prefix
      · exact hresponses
    refine ⟨hgot.imp And.left And.left, fun stream hstream => ?_⟩
    refine (dataStream_of_got hfits hgot' hstream).imp_right (Or.imp_right ?_)
    rintro ⟨items, part, hsource, hpart, rfl⟩
    refine ⟨items, part, hsource, hpart, rfl, ?_⟩
    rintro frames n m rfl hdone
    have hmap : (transfer frames n).map (·.mapError relayError) = transfer frames n := by
      rw [transfer, List.map_append, List.map_map]
      rfl
    rw [hmap] at hpart
    exact eq_of_done_mem hpart hdone
  · obtain ⟨s, hrun, -, hgot, hfailure⟩ :=
      Calls.exists_run maxFrameLength_lt hroute hjob hrequest hwithin
    exact ⟨s, hrun, dataStream_of_got_all hfits hgot hfailure⟩

/-- A value, and an entry of a map. -/
def twoFrames : List DataFrame := [⟨.kv, [1], [2]⟩, ⟨.map, [3], [4, 5]⟩]

def twoFramesApi : Api :=
  ⟨fun _ => .error StorageApi.Error.internal, fun _ => .ok (transfer twoFrames 2)⟩

theorem fits_twoFrames : ∀ res ∈ readDataResponses (twoFramesApi.readData ⟨0, 9, 1⟩),
    Codec.readDataResponse.Fits res := by
  have hframe : ∀ frame ∈ twoFrames, Codec.readDataResponse.Fits (.item (.ok (.frame frame))) := by
    refine List.forall_mem_cons.mpr ⟨?_, List.forall_mem_singleton.mpr ?_⟩
    · exact ⟨trivial, (by decide : 1 < 2 ^ 64), (by decide : 1 < 2 ^ 64)⟩
    · exact ⟨trivial, (by decide : 1 < 2 ^ 64), (by decide : 2 < 2 ^ 64)⟩
  refine List.forall_mem_cons.mpr ⟨trivial, fun res hres => ?_⟩
  obtain ⟨item, hitem, rfl⟩ := List.mem_map.mp hres
  rcases List.mem_append.mp hitem with hitem | hitem
  · obtain ⟨frame, hmem, rfl⟩ := List.mem_map.mp hitem
    exact hframe frame hmem
  · rw [List.mem_singleton.mp hitem]
    exact (by decide : 2 < 2 ^ 64)

theorem read_data_remote_twoFrames :
    ∃ s, Run (Calls.Step maxFrameLength (service twoFramesApi)) (sendReadData ⟨0, 9, 1⟩) s ∧
      dataStream ⟨fun _ => "", fun _ => "", ""⟩ s = some (.ok (transfer twoFrames 2)) :=
  (read_data_remote twoFramesApi ⟨fun _ => "", fun _ => "", ""⟩ ⟨0, 9, 1⟩
    ⟨⟨(by decide : 0 < 2 ^ 64), (by decide : 9 < 2 ^ 64)⟩, (by decide : 1 < 2 ^ 64)⟩
    fits_twoFrames).2 (by decide +kernel) (by unfold Calls.Within; decide +kernel)

end ReadData

end Rpc
end StorageApi
end Wcn
