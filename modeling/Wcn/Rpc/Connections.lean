import Wcn.Lib.Codecs
import Wcn.Lib.Runs

/-!
# Wcn.Rpc.Connections

How connections come about (`crates/rpc/src/{lib,client,server}.rs`). A client dials an address, checks who
answers there, and names the API that it wants; the server looks for the API among those it serves
and lets the API decide. A lost connection is established again by a task in the background, as
often as it takes, while the servers and what they admit may change.

* `ConnectionStatus`, `checkConnectionStatus` — the answer of the server and what the client makes of
  it.
* `Router` — the APIs of a server. Of two with the same name, the one added last counts.
* `Step` — a connection of a client, next to the servers and their other clients. Every transport
  connection has a number, under which the server that admits it notes it.
* `connections_admitted` — a client only ever holds a connection to the expected peer that the API
  admitted in the handshake of this connection.
-/

namespace Wcn
namespace Rpc
namespace Connections

open Lib

/-! ## The handshake -/

def protocolVersion : Nat := 0

structure ApiName where
  bytes : Vector UInt8 16
deriving DecidableEq

/-- Filled up with zeros; the assertion is a hypothesis. -/
def ApiName.new (s : String) (h : (Postcard.Codec.utf8 s).length ≤ 16) : ApiName :=
  ⟨⟨(Postcard.Codec.utf8 s ++ List.replicate (16 - (Postcard.Codec.utf8 s).length) 0).toArray, by
    simp only [List.size_toArray, List.length_append, List.length_replicate]
    omega⟩⟩

inductive ConnectionStatus where
  | ok
  | unsupportedProtocol
  | unknownApi
  | unauthorized
  | rejected (reason : UInt8)
deriving DecidableEq

namespace ConnectionStatus

def tryFrom (code : Int) : Option ConnectionStatus :=
  if code = 0 then some ok
  else if code = -1 then some unsupportedProtocol
  else if code = -2 then some unknownApi
  else if code = -3 then some unauthorized
  else if -1255 ≤ code ∧ code ≤ -1000 then some (rejected (.ofNat (-code - 1000).toNat))
  else none

/-- `unauthorized` has the code of `unknownApi`. -/
def code : ConnectionStatus → Int
  | ok => 0
  | unsupportedProtocol => -1
  | unknownApi => -2
  | unauthorized => -2
  | rejected reason => -(reason.toNat : Int) - 1000

end ConnectionStatus

inductive ConnectError where
  | unknownConnectionStatusCode (code : Int)
  | unsupportedProtocol
  | unknownApi
  | connectionRejected (reason : UInt8)
deriving DecidableEq

def checkConnectionStatus (code : Int) : Except ConnectError Unit :=
  match ConnectionStatus.tryFrom code with
  | none => .error (.unknownConnectionStatusCode code)
  | some .ok => .ok ()
  | some .unsupportedProtocol => .error .unsupportedProtocol
  | some .unknownApi | some .unauthorized => .error .unknownApi
  | some (.rejected reason) => .error (.connectionRejected reason)

/-- What a status is to the client. -/
def ConnectionStatus.outcome : ConnectionStatus → Except ConnectError Unit
  | ok => .ok ()
  | unsupportedProtocol => .error .unsupportedProtocol
  | unknownApi | unauthorized => .error .unknownApi
  | rejected reason => .error (.connectionRejected reason)

/-- `write_i32`. -/
def writeI32 (n : Int) : Bytes := toBe 4 (n % 2 ^ 32).toNat

def readI32 (bytes : Bytes) : Option Int :=
  (readBe 4 bytes).map fun (n, _) => if n < 2 ^ 31 then (n : Int) else n - 2 ^ 32

/-- What the client writes. -/
def handshakeRequest (name : ApiName) : Bytes := toBe 4 protocolVersion ++ name.bytes.toList

theorem readI32_writeI32 {n : Int} (hmin : -2 ^ 31 ≤ n) (hmax : n < 2 ^ 31) :
    readI32 (writeI32 n) = some n := by
  have hread := readBe_toBe 4 (n % 2 ^ 32).toNat []
  rw [List.append_nil] at hread
  rw [Nat.mod_eq_of_lt (by omega)] at hread
  rw [readI32, writeI32, hread, Option.map_some, Option.some.injEq]
  dsimp only
  split_ifs <;> omega

/-- All codes are understood; the two statuses that share one mean the same to the client. -/
theorem checkConnectionStatus_code (status : ConnectionStatus) :
    checkConnectionStatus status.code = status.outcome := by
  cases status with
  | rejected reason =>
    have hlt := reason.toNat_lt
    have hreason : UInt8.ofNat (-(-(reason.toNat : Int) - 1000) - 1000).toNat = reason := by
      rw [show (-(-(reason.toNat : Int) - 1000) - 1000).toNat = reason.toNat by omega,
        UInt8.ofNat_toNat]
    rw [checkConnectionStatus, ConnectionStatus.tryFrom, ConnectionStatus.code, if_neg (by omega),
      if_neg (by omega), if_neg (by omega), if_neg (by omega), if_pos (by omega), hreason]
    rfl
  | _ => rfl

theorem readI32_code (status : ConnectionStatus) : readI32 (writeI32 status.code) = some status.code := by
  cases status with
  | rejected reason =>
    have hlt := reason.toNat_lt
    exact readI32_writeI32 (by rw [ConnectionStatus.code]; omega)
      (by rw [ConnectionStatus.code]; omega)
  | _ => exact readI32_writeI32 (by decide) (by decide)

/-! ## Servers -/

/-- The APIs of a server: each says whether it admits a peer, or why it rejects it. -/
inductive Router (P : Type) where
  | api (name : ApiName) (rejection : P → Option UInt8)
  | multiplexer (head tail : Router P)

namespace Router

variable {P : Type}

def containsApi (name : ApiName) : Router P → Bool
  | api name' _ => name = name'
  | multiplexer head tail => head.containsApi name || tail.containsApi name

/-- The status that the client gets. -/
def routeConnection (name : ApiName) (peer : P) : Router P → ConnectionStatus
  | api name' rejection =>
    if name = name' then
      match rejection peer with
      | none => .ok
      | some reason => .rejected reason
    else
      .unknownApi
  | multiplexer head tail =>
    if head.containsApi name then head.routeConnection name peer else tail.routeConnection name peer

/-- What `accept_connection` writes, once it has read what it needs. -/
def acceptConnection (self : Router P) (peer : P) (received : Bytes) : Option ConnectionStatus :=
  match readBe 4 received with
  | none => none
  | some (version, rest) =>
    if version ≠ protocolVersion then
      some .unsupportedProtocol
    else if h : 16 ≤ rest.length then
      some (self.routeConnection ⟨⟨(rest.take 16).toArray, by simp [h]⟩⟩ peer)
    else
      none

/-- The APIs in the order in which they are looked for. -/
def apis : Router P → List (ApiName × (P → Option UInt8))
  | api name rejection => [(name, rejection)]
  | multiplexer head tail => head.apis ++ tail.apis

/-- The server has an API of this name, and the one that counts admits the peer. -/
def Admits (self : Router P) (name : ApiName) (peer : P) : Prop :=
  ∃ entry, self.apis.find? (·.1 = name) = some entry ∧ entry.2 peer = none

theorem containsApi_eq (name : ApiName) (self : Router P) :
    self.containsApi name = (self.apis.find? (·.1 = name)).isSome := by
  induction self with
  | api name' rejection =>
    rw [containsApi, apis, List.find?_singleton]
    by_cases h : name = name' <;> simp [h, eq_comm]
  | multiplexer head tail ihhead ihtail =>
    rw [containsApi, apis, List.find?_append, ihhead, ihtail, Option.isSome_or]

theorem routeConnection_eq_ok (name : ApiName) (peer : P) (self : Router P) :
    self.routeConnection name peer = .ok ↔ self.Admits name peer := by
  induction self with
  | api name' rejection =>
    rw [routeConnection, Admits, apis, List.find?_singleton]
    by_cases h : name = name'
    · subst h
      cases hrejection : rejection peer <;> simp [hrejection]
    · simp [h, Ne.symm h, eq_comm]
  | multiplexer head tail ihhead ihtail =>
    rw [routeConnection, Admits, apis, List.find?_append, containsApi_eq]
    cases hfind : head.apis.find? (·.1 = name) with
    | none =>
      rw [Option.isSome_none, if_neg Bool.false_ne_true, Option.none_or, ihtail]
      rfl
    | some entry =>
      rw [Option.isSome_some, if_pos rfl, Option.some_or, ihhead, Admits, hfind]

theorem admits_api {name name' : ApiName} {rejection : P → Option UInt8} {peer : P} :
    (api name' rejection).Admits name peer ↔ name = name' ∧ rejection peer = none := by
  rw [Admits, apis, List.find?_singleton]
  by_cases h : name' = name
  · simp [h]
  · simp [h, Ne.symm h]

/-- An API that is added, if there is none with its name yet. -/
theorem admits_multiplexer {name name' : ApiName} {rejection : P → Option UInt8} {tail : Router P}
    {peer : P} (htail : tail.containsApi name' = false) :
    (multiplexer (api name' rejection) tail).Admits name peer ↔
      name = name' ∧ rejection peer = none ∨ tail.Admits name peer := by
  rw [← routeConnection_eq_ok, routeConnection, ← admits_api, ← routeConnection_eq_ok,
    ← routeConnection_eq_ok, containsApi]
  by_cases h : name = name'
  · have hnone : tail.routeConnection name peer ≠ .ok := by
      rw [ne_eq, routeConnection_eq_ok]
      rintro ⟨entry, hfind, _⟩
      rw [containsApi_eq, ← h, hfind] at htail
      cases htail
    rw [if_pos (decide_eq_true h), or_iff_left hnone]
  · have hnone : (api name' rejection).routeConnection name peer ≠ .ok := by
      rw [routeConnection, if_neg h]
      exact ConnectionStatus.noConfusion
    rw [if_neg (by simpa using h), or_iff_right hnone]

theorem acceptConnection_handshakeRequest (name : ApiName) (peer : P) (self : Router P) :
    self.acceptConnection peer (handshakeRequest name) = some (self.routeConnection name peer) := by
  have hlen : 16 ≤ name.bytes.toList.length := name.bytes.length_toList.ge
  rw [acceptConnection, handshakeRequest, readBe_toBe]
  dsimp only
  rw [if_neg (by decide), dif_pos hlen]
  refine congrArg (fun name => some (self.routeConnection name peer)) ?_
  refine congrArg ApiName.mk (Vector.toList_inj.mp ?_)
  exact List.take_of_length_le name.bytes.length_toList.le

end Router

structure Server (P : Type) where
  peerId : P
  router : Router P

/-! ## Connections of a client -/

/-- A transport connection that passed the handshake. -/
structure Link (P : Type) where
  id : Nat
  server : P
  closed : Bool

/-- How far an attempt to connect has come. -/
inductive Attempt (P : Type) where
  | ticking
  | handshaking (id : Nat) (server : P)
  | answered (id : Nat) (server : P) (reply : Bytes)

/-- What a connection is made with: who connects, to which API, and to which peer at which address. -/
structure Target (P A : Type) where
  clientId : P
  api : ApiName
  remoteAddr : A
  remotePeerId : P

structure Connection (P : Type) where
  isReconnectEnabled : Bool
  /-- What the watch channel holds. -/
  watch : Option (Link P)
  /-- The attempt that is being made, which holds the sender of the watch channel. -/
  task : Option (Attempt P)
  /-- There still are handles to the connection. -/
  held : Bool

namespace Connection

variable {P : Type}

/-- `Client::new_connection`: returns at once, and connects in the background. -/
def newConnection : Connection P := ⟨true, none, some .ticking, true⟩

/-- `Client::connect`: makes a single attempt. -/
def connect : Connection P := ⟨false, none, some .ticking, true⟩

def isClosed (self : Connection P) : Bool := self.watch.all Link.closed

/-- Does nothing while an attempt is being made. -/
def reconnect (self : Connection P) : Connection P :=
  if self.isReconnectEnabled ∧ self.task.isNone then { self with task := some .ticking } else self

/-- After an attempt that failed. -/
def retry (self : Connection P) : Connection P :=
  { self with task := if self.isReconnectEnabled then some .ticking else none }

/-- The remote peer of the transport connection is known. -/
def checkPeer [DecidableEq P] (self : Connection P) (expected : P) (id : Nat) (server : P) :
    Connection P :=
  if expected = server then { self with task := some (.handshaking id server) } else self.retry

/-- The status has been read. -/
def finish (self : Connection P) (id : Nat) (server : P) (reply : Bytes) : Connection P :=
  match readI32 reply with
  | none => self.retry
  | some code =>
    match checkConnectionStatus code with
    | .error _ => self.retry
    | .ok () => { self with watch := some ⟨id, server, false⟩, task := none }

theorem finish_code (self : Connection P) (id : Nat) (server : P) (status : ConnectionStatus) :
    self.finish id server (writeI32 status.code) =
      if status = .ok then { self with watch := some ⟨id, server, false⟩, task := none }
      else self.retry := by
  rw [finish, readI32_code]
  dsimp only
  rw [checkConnectionStatus_code]
  cases status <;> rfl

end Connection

/-- A transport connection on which a server serves an API, as the server was when it admitted the
client. -/
structure Serving (P A : Type) where
  id : Nat
  addr : A
  server : Server P
  api : ApiName
  clientId : P

/-- A connection, the servers at their addresses, and what they came to serve. -/
structure World (P A : Type) where
  servers : A → Option (Server P)
  conn : Connection P
  /-- How many transport connections there were. -/
  dialled : Nat
  served : List (Serving P A)

def World.start {P A : Type} (servers : A → Option (Server P)) (conn : Connection P) : World P A :=
  ⟨servers, conn, 0, []⟩

variable {P A : Type}

/-- A connection is served if the status is `Ok`. -/
def World.answer (w : World P A) (serving : Serving P A) (status : ConnectionStatus) : List (Serving P A) :=
  if status = .ok then serving :: w.served else w.served

/-- What may happen. Servers come and go, and change what they admit. -/
inductive Step [DecidableEq P] (target : Target P A) : World P A → World P A → Prop where
  | change (w : World P A) (servers : A → Option (Server P)) : Step target w { w with servers }
  /-- A server answers another client. -/
  | other (w : World P A) {addr : A} {server : Server P} {api : ApiName} {clientId : P}
      {status : ConnectionStatus} (hserver : w.servers addr = some server)
      (hstatus : server.router.acceptConnection clientId (handshakeRequest api) = some status) :
    Step target w
      { w with
        dialled := w.dialled + 1
        served := w.answer ⟨w.dialled, addr, server, api, clientId⟩ status }
  /-- A handle is asked whether it is open, or an RPC fails. -/
  | touch (w : World P A) (h : w.conn.held = true) :
    Step target w { w with conn := w.conn.reconnect }
  | dial (w : World P A) {server : Server P} (h : w.conn.task = some .ticking)
      (hserver : w.servers target.remoteAddr = some server) :
    Step target w
      { w with
        conn := w.conn.checkPeer target.remotePeerId w.dialled server.peerId
        dialled := w.dialled + 1 }
  /-- The server answers the handshake. -/
  | serve (w : World P A) {id : Nat} {server : Server P} {status : ConnectionStatus}
      (h : w.conn.task = some (.handshaking id server.peerId))
      (hserver : w.servers target.remoteAddr = some server)
      (hstatus : server.router.acceptConnection target.clientId (handshakeRequest target.api)
        = some status) :
    Step target w
      { w with
        conn := { w.conn with task := some (.answered id server.peerId (writeI32 status.code)) }
        served := w.answer ⟨id, target.remoteAddr, server, target.api, target.clientId⟩ status }
  | finish (w : World P A) {id : Nat} {server : P} {reply : Bytes}
      (h : w.conn.task = some (.answered id server reply)) :
    Step target w { w with conn := w.conn.finish id server reply }
  /-- The attempt breaks off, or takes too long. -/
  | fail (w : World P A) {attempt : Attempt P} (h : w.conn.task = some attempt) :
    Step target w { w with conn := w.conn.retry }
  /-- The transport connection is lost, or closed by either side. -/
  | close (w : World P A) {link : Link P} (h : w.conn.watch = some link) :
    Step target w { w with conn := { w.conn with watch := some { link with closed := true } } }
  /-- The last handle goes, and with it the task. -/
  | drop (w : World P A) :
    Step target w { w with conn := { w.conn with task := none, held := false } }

/-- The transport connection is served, to this client, by a server with the expected identity. -/
structure Admitted (target : Target P A) (served : List (Serving P A)) (id : Nat) : Prop where
  noted : ∃ serving ∈ served, serving.id = id
  expected : ∀ serving ∈ served, serving.id = id → serving.server.peerId = target.remotePeerId ∧
    serving.addr = target.remoteAddr ∧ serving.api = target.api ∧ serving.clientId = target.clientId

/-- What the attempt that is being made has established. -/
def Attempt.Safe (target : Target P A) (w : World P A) : Attempt P → Prop
  | ticking => True
  | handshaking id server => server = target.remotePeerId ∧ id < w.dialled ∧
    ∀ serving ∈ w.served, serving.id ≠ id
  | answered id server reply => server = target.remotePeerId ∧
    ∃ status : ConnectionStatus, reply = writeI32 status.code ∧
      (status = .ok → Admitted target w.served id)

structure World.Safe (target : Target P A) (w : World P A) : Prop where
  dialled : ∀ serving ∈ w.served, serving.id < w.dialled
  admits : ∀ serving ∈ w.served, serving.server.router.Admits serving.api serving.clientId
  attempt : ∀ attempt, w.conn.task = some attempt → attempt.Safe target w
  link : ∀ link, w.conn.watch = some link →
    link.server = target.remotePeerId ∧ Admitted target w.served link.id
  held : w.conn.held = false → w.conn.task = none

variable {target : Target P A}

theorem mem_answer {w : World P A} {serving serving' : Serving P A} {status : ConnectionStatus} :
    serving' ∈ w.answer serving status ↔ status = .ok ∧ serving' = serving ∨ serving' ∈ w.served := by
  rw [World.answer]
  split <;> simp_all

/-- Serving a new transport connection does not touch the others. -/
theorem Admitted.answer {w : World P A} {id : Nat} (h : Admitted target w.served id)
    {serving : Serving P A} (hnew : ∀ serving' ∈ w.served, serving'.id ≠ serving.id)
    (status : ConnectionStatus) : Admitted target (w.answer serving status) id := by
  obtain ⟨⟨old, hold, hid⟩, hexpected⟩ := h
  refine ⟨⟨old, mem_answer.mpr (.inr hold), hid⟩, fun serving' hmem hid' => ?_⟩
  rcases mem_answer.mp hmem with ⟨-, rfl⟩ | hmem
  · exact absurd (hid.trans hid'.symm) (hnew old hold)
  · exact hexpected serving' hmem hid'

theorem World.Safe.admits_answer {w : World P A} (h : w.Safe target) {serving : Serving P A}
    {status : ConnectionStatus}
    (hstatus : serving.server.router.acceptConnection serving.clientId (handshakeRequest serving.api)
      = some status) :
    ∀ serving' ∈ w.answer serving status,
      serving'.server.router.Admits serving'.api serving'.clientId := by
  intro serving' hmem
  rcases mem_answer.mp hmem with ⟨hok, rfl⟩ | hmem
  · rw [Router.acceptConnection_handshakeRequest, hok, Option.some.injEq] at hstatus
    exact (Router.routeConnection_eq_ok _ _ _).mp hstatus
  · exact h.admits serving' hmem

/-- An attempt that comes further, or is given up, keeps what is known of the connection. -/
theorem World.Safe.withTask {w : World P A} (h : w.Safe target) {task : Option (Attempt P)}
    (hsafe : ∀ attempt, task = some attempt → attempt.Safe target w)
    (hheld : w.conn.held = false → task = none) :
    World.Safe target { w with conn := { w.conn with task } } where
  dialled := h.dialled
  admits := h.admits
  attempt attempt hattempt := by
    cases attempt with
    | ticking => exact trivial
    | handshaking id server => exact hsafe _ hattempt
    | answered id server reply => exact hsafe _ hattempt
  link := h.link
  held := hheld

theorem World.Safe.retry {w : World P A} (h : w.Safe target) {attempt : Attempt P}
    (htask : w.conn.task = some attempt) : World.Safe target { w with conn := w.conn.retry } := by
  have hheld (hheld : w.conn.held = false) : False :=
    Option.some_ne_none _ (htask.symm.trans (h.held hheld))
  refine h.withTask (fun attempt' hattempt' => ?_) fun hh => (hheld hh).elim
  split at hattempt'
  · obtain rfl := Option.some.inj hattempt'
    exact trivial
  · cases hattempt'

/-- Another transport connection. -/
theorem World.Safe.dial {w : World P A} (h : w.Safe target) :
    World.Safe target { w with dialled := w.dialled + 1 } where
  dialled serving hmem := (h.dialled serving hmem).trans (Nat.lt_succ_self _)
  admits := h.admits
  attempt attempt hattempt := by
    have hsafe := h.attempt attempt hattempt
    cases attempt with
    | ticking => exact trivial
    | handshaking id server => exact ⟨hsafe.1, hsafe.2.1.trans (Nat.lt_succ_self _), hsafe.2.2⟩
    | answered id server reply => exact hsafe
  link := h.link
  held := h.held

theorem safe_start (target : Target P A) (servers : A → Option (Server P)) {conn : Connection P}
    (hconn : conn = .newConnection ∨ conn = .connect) : World.Safe target (.start servers conn) where
  dialled _ hmem := absurd hmem List.not_mem_nil
  admits _ hmem := absurd hmem List.not_mem_nil
  attempt attempt hattempt := by
    rcases hconn with rfl | rfl <;> exact Option.some.inj hattempt ▸ trivial
  link link hlink := by rcases hconn with rfl | rfl <;> cases hlink
  held hheld := by rcases hconn with rfl | rfl <;> cases hheld

variable [DecidableEq P]

theorem World.Safe.step {w w' : World P A} (h : w.Safe target) (hstep : Step target w w') :
    w'.Safe target := by
  cases hstep with
  | change servers =>
    refine ⟨h.dialled, h.admits, fun attempt hattempt => ?_, h.link, h.held⟩
    have hsafe := h.attempt attempt hattempt
    cases attempt <;> exact hsafe
  | @other addr server api clientId status hserver hstatus =>
    have hnew : ∀ serving ∈ w.served, serving.id ≠ w.dialled := fun serving hmem =>
      (h.dialled serving hmem).ne
    refine ⟨fun serving hmem => ?_, h.admits_answer hstatus, fun attempt hattempt => ?_,
      fun link hlink => ⟨(h.link link hlink).1, (h.link link hlink).2.answer hnew status⟩, h.held⟩
    · rcases mem_answer.mp hmem with ⟨-, rfl⟩ | hmem
      · exact Nat.lt_succ_self _
      · exact (h.dialled serving hmem).trans (Nat.lt_succ_self _)
    · have hsafe := h.attempt attempt hattempt
      cases attempt with
      | ticking => exact trivial
      | handshaking id server' =>
        obtain ⟨hpeer, hlt, hnone⟩ := hsafe
        refine ⟨hpeer, hlt.trans (Nat.lt_succ_self _), fun serving hmem => ?_⟩
        rcases mem_answer.mp hmem with ⟨-, rfl⟩ | hmem
        · exact hlt.ne'
        · exact hnone serving hmem
      | answered id server' reply =>
        obtain ⟨hpeer, status', hreply, hadmitted⟩ := hsafe
        exact ⟨hpeer, status', hreply, fun hok => (hadmitted hok).answer hnew status⟩
  | touch hheld =>
    rw [Connection.reconnect]
    split
    · refine h.withTask (fun attempt hattempt => ?_) fun hh => absurd (hh.symm.trans hheld) (by decide)
      obtain rfl := Option.some.inj hattempt
      exact trivial
    · exact h
  | @dial server htask hserver =>
    rw [Connection.checkPeer]
    split
    next hpeer =>
      refine h.dial.withTask (fun attempt hattempt => ?_) fun hheld => ?_
      · obtain rfl := Option.some.inj hattempt
        exact ⟨hpeer.symm, Nat.lt_succ_self _, fun serving hmem => (h.dialled serving hmem).ne⟩
      · exact absurd (htask.symm.trans (h.held hheld)) (Option.some_ne_none _)
    next => exact h.dial.retry htask
  | @serve id server status htask hserver hstatus =>
    obtain ⟨hpeer, hlt, hnone⟩ := h.attempt _ htask
    refine ⟨fun serving hmem => ?_, h.admits_answer hstatus, fun attempt hattempt => ?_,
      fun link hlink => ⟨(h.link link hlink).1, (h.link link hlink).2.answer hnone status⟩,
      fun hheld => ?_⟩
    · rcases mem_answer.mp hmem with ⟨-, rfl⟩ | hmem
      · exact hlt
      · exact h.dialled serving hmem
    · obtain rfl := Option.some.inj hattempt
      refine ⟨hpeer, status, rfl, fun hok => ⟨⟨_, mem_answer.mpr (.inl ⟨hok, rfl⟩), rfl⟩, ?_⟩⟩
      intro serving hmem hid
      rcases mem_answer.mp hmem with ⟨-, rfl⟩ | hmem
      · exact ⟨hpeer, rfl, rfl, rfl⟩
      · exact absurd hid (hnone serving hmem)
    · exact absurd (htask.symm.trans (h.held hheld)) (Option.some_ne_none _)
  | @finish id server reply htask =>
    obtain ⟨rfl, status, rfl, hadmitted⟩ := h.attempt _ htask
    rw [Connection.finish_code]
    split
    next hok =>
      exact ⟨h.dialled, h.admits, fun _ hattempt => (nomatch hattempt),
        fun link hlink => Option.some.inj hlink ▸ ⟨rfl, hadmitted hok⟩, fun _ => rfl⟩
    next => exact h.retry htask
  | fail htask => exact h.retry htask
  | @close link hlink =>
    refine ⟨h.dialled, h.admits, fun attempt hattempt => ?_, fun link' hlink' => ?_, h.held⟩
    · have hsafe := h.attempt attempt hattempt
      cases attempt <;> exact hsafe
    · obtain rfl := Option.some.inj hlink'
      exact h.link link hlink
  | drop => exact ⟨h.dialled, h.admits, fun _ hattempt => (nomatch hattempt), h.link, fun _ => rfl⟩

theorem safe_invariant (target : Target P A) : Invariant (Step target) (World.Safe target) :=
  fun _ _ => World.Safe.step

/-- What is left once there is no handle any more: the link of an earlier state, closed if it was. -/
structure World.Abandoned (before w : World P A) : Prop where
  held : w.conn.held = false
  task : w.conn.task = none
  link : w.conn.watch.map Link.id = before.conn.watch.map Link.id
  closed : before.conn.isClosed = true → w.conn.isClosed = true

theorem World.Abandoned.step {before w w' : World P A} (h : before.Abandoned w)
    (hstep : Step target w w') : before.Abandoned w' := by
  cases hstep with
  | change | other => exact ⟨h.held, h.task, h.link, h.closed⟩
  | touch hheld => exact absurd (h.held.symm.trans hheld) (by decide)
  | dial htask | serve htask | finish htask | fail htask => exact nomatch h.task.symm.trans htask
  | close hlink =>
    refine ⟨h.held, h.task, ?_, fun _ => rfl⟩
    rw [← h.link, hlink]
    rfl
  | drop => exact ⟨rfl, rfl, h.link, h.closed⟩

/-- A step in which the servers stay as they are. -/
def SteadyStep (target : Target P A) (w w' : World P A) : Prop :=
  Step target w w' ∧ w'.servers = w.servers

/-- The attempt that is due succeeds, if there is a server that admits the client. -/
theorem run_established {w : World P A} (htask : w.conn.task = some .ticking) {server : Server P}
    (hserver : w.servers target.remoteAddr = some server)
    (hpeer : server.peerId = target.remotePeerId)
    (hadmits : server.router.Admits target.api target.clientId) :
    Run (SteadyStep target) w
      { w with
        conn := { w.conn with watch := some ⟨w.dialled, server.peerId, false⟩, task := none }
        dialled := w.dialled + 1
        served := ⟨w.dialled, target.remoteAddr, server, target.api, target.clientId⟩ :: w.served } := by
  have hdial : Step target w _ := .dial w htask hserver
  rw [Connection.checkPeer, if_pos hpeer.symm] at hdial
  have hstatus := (Router.acceptConnection_handshakeRequest target.api target.clientId
    server.router).trans (congrArg some ((Router.routeConnection_eq_ok _ _ _).mpr hadmits))
  have hserve : Step target _ _ :=
    .serve
      { w with
        conn := { w.conn with task := some (.handshaking w.dialled server.peerId) }
        dialled := w.dialled + 1 }
      rfl hserver hstatus
  rw [World.answer, if_pos rfl] at hserve
  have hfinish : Step target _ _ :=
    .finish
      { w with
        conn := { w.conn with
          task := some (.answered w.dialled server.peerId (writeI32 ConnectionStatus.ok.code)) }
        dialled := w.dialled + 1
        served := ⟨w.dialled, target.remoteAddr, server, target.api, target.clientId⟩ :: w.served }
      rfl
  rw [Connection.finish_code, if_pos rfl] at hfinish
  exact ((Relation.ReflTransGen.single ⟨hdial, rfl⟩).tail ⟨hserve, rfl⟩).tail ⟨hfinish, rfl⟩

/-- A connection that is held is established again as soon as a server that admits the client is back,
whatever happened before. -/
theorem exists_run_open {w : World P A} (hheld : w.conn.held = true)
    (henabled : w.conn.isReconnectEnabled = true) {server : Server P}
    (hserver : w.servers target.remoteAddr = some server)
    (hpeer : server.peerId = target.remotePeerId)
    (hadmits : server.router.Admits target.api target.clientId) :
    ∃ w', Run (SteadyStep target) w w' ∧ w'.conn.isClosed = false := by
  have hticking :
      Run (SteadyStep target) w { w with conn := { w.conn with task := some .ticking } } := by
    cases htask : w.conn.task with
    | none =>
      have hstep : Step target w _ := .touch w hheld
      rw [Connection.reconnect, if_pos ⟨henabled, by rw [htask]; rfl⟩] at hstep
      exact .single ⟨hstep, rfl⟩
    | some attempt =>
      have hstep : Step target w _ := .fail w htask
      rw [Connection.retry, if_pos henabled] at hstep
      exact .single ⟨hstep, rfl⟩
  exact ⟨_, hticking.trans (run_established rfl hserver hpeer hadmits), rfl⟩

theorem Step.isReconnectEnabled {w w' : World P A} (hstep : Step target w w') :
    w'.conn.isReconnectEnabled = w.conn.isReconnectEnabled := by
  cases hstep with
  | change | other | serve | fail | close | drop => rfl
  | touch =>
    dsimp only [Connection.reconnect]
    split <;> rfl
  | dial =>
    dsimp only [Connection.checkPeer]
    split <;> rfl
  | finish =>
    dsimp only [Connection.finish]
    split
    · rfl
    · split <;> rfl

theorem reconnectEnabled_invariant (target : Target P A) :
    Invariant (Step target) fun w => w.conn.isReconnectEnabled = true :=
  fun _ _ h hstep => hstep.isReconnectEnabled.trans h

/-- Whatever the servers do and however often the connection is lost, what a client holds is a transport
connection to the peer that it expects, and a server with this identity serves it on this transport
connection since its API of this name admitted the client. Servers serve only what they admitted. A
connection without handles makes no attempt any more: it keeps its transport connection, which stays
closed if it is. One with handles can be established again whenever there is such a server. -/
theorem connections_admitted (target : Target P A) (servers : A → Option (Server P))
    {conn : Connection P} (hconn : conn = .newConnection ∨ conn = .connect) {w : World P A}
    (hrun : Run (Step target) (.start servers conn) w) :
    (∀ link, w.conn.watch = some link → link.server = target.remotePeerId ∧
      (∃ serving ∈ w.served, serving.id = link.id) ∧
      ∀ serving ∈ w.served, serving.id = link.id → serving.server.peerId = target.remotePeerId ∧
        serving.addr = target.remoteAddr ∧ serving.api = target.api ∧
        serving.clientId = target.clientId) ∧
    (∀ serving ∈ w.served, serving.server.router.Admits serving.api serving.clientId) ∧
    (w.conn.held = false → ∀ w', Run (Step target) w w' → w'.conn.task = none ∧
      w'.conn.watch.map Link.id = w.conn.watch.map Link.id ∧
      (w.conn.isClosed = true → w'.conn.isClosed = true)) ∧
    (∀ server, conn = .newConnection → w.conn.held = true →
      w.servers target.remoteAddr = some server → server.peerId = target.remotePeerId →
      server.router.Admits target.api target.clientId →
      ∃ w', Run (SteadyStep target) w w' ∧ w'.conn.isClosed = false) := by
  have hsafe : w.Safe target :=
    (safe_invariant target).run hrun (safe_start target servers hconn)
  refine ⟨fun link hlink => ?_, hsafe.admits, fun hheld w' hrun' => ?_,
    fun server hnew hheld hserver hpeer hadmits => ?_⟩
  · obtain ⟨hserver, hadmitted⟩ := hsafe.link link hlink
    exact ⟨hserver, hadmitted.noted, hadmitted.expected⟩
  · have hinvariant : Invariant (Step target) w.Abandoned := fun _ _ h hstep => h.step hstep
    have habandoned := hinvariant.run hrun' ⟨hheld, hsafe.held hheld, rfl, id⟩
    exact ⟨habandoned.task, habandoned.link, habandoned.closed⟩
  · have henabled : w.conn.isReconnectEnabled = true :=
      (reconnectEnabled_invariant target).run hrun (by rw [hnew]; rfl)
    exact exists_run_open hheld henabled hserver hpeer hadmits

/-- Peer 7 lets in peer 3 only. -/
def server7 : Server Nat := ⟨7, .api ⟨.replicate 16 0⟩ fun peer => if peer = 3 then none else some 1⟩

def target7 : Target Nat Unit := ⟨3, ⟨.replicate 16 0⟩, (), 7⟩

def connected7 : World Nat Unit :=
  ⟨fun _ => some server7, ⟨true, some ⟨0, 7, false⟩, none, true⟩, 1, [⟨0, (), server7, target7.api, 3⟩]⟩

/-- Peer 3 was connected, and has lost the connection. -/
def lost7 : World Nat Unit := { connected7 with conn := ⟨true, some ⟨0, 7, true⟩, none, true⟩ }

theorem server7_admits : server7.router.Admits target7.api 3 :=
  (Router.routeConnection_eq_ok _ _ _).mp rfl

theorem run_lost7 : Run (Step target7) (.start (fun _ => some server7) .newConnection) lost7 := by
  have hestablished :
      Run (SteadyStep target7) (.start (fun _ => some server7) .newConnection) connected7 :=
    run_established rfl rfl rfl server7_admits
  have hclose : Step target7 connected7 lost7 := .close connected7 rfl
  exact (Relation.ReflTransGen.mono (fun _ _ h => h.1) _ _ hestablished).tail hclose

theorem connections_admitted_lost7 :
    (∃ serving ∈ lost7.served, serving.id = 0) ∧
    ∃ w', Run (SteadyStep target7) lost7 w' ∧ w'.conn.isClosed = false := by
  have h := connections_admitted target7 (fun _ => some server7) (.inl rfl) run_lost7
  exact ⟨(h.1 ⟨0, 7, true⟩ rfl).2.1, h.2.2.2 server7 rfl rfl rfl rfl server7_admits⟩

end Connections
end Rpc
end Wcn
