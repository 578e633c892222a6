import Wcn.Network.Isolation
import Wcn.Rpc.Connections
import Wcn.StorageApi.Rpc

/-!
# Wcn.Network.Services

Which APIs a node serves at its two ports, and to whom (`crates/node/src/lib.rs` and the factories of the
APIs). What a node admits depends on its view of the cluster, which changes while clients connect.

* `nodeRouter` — the servers of a node with a given view.
* `Authorized` — who may use what, by a view.
* `connected_authorized` — whoever is served on a connection was authorized by the view that the node had
  in its handshake, and who is authorized can connect.
-/

namespace Wcn

open Lib
open Cluster (NodeOperators Settings View)
open Cluster.OperatorData (Operator)
open Rpc.Connections

variable {P N : Type} [DecidableEq P]

/-- Of an operator with corrupted data there are nodes with random ids only. -/
def Cluster.NodeOperators.containsNode (peerIdOf : N → P)
    (operators : NodeOperators (Operator P N)) (peerId : P) : Bool :=
  operators.slots.any fun slot => slot.any fun operator =>
    (operator.data.elim [] (·.nodes)).any fun node => peerIdOf node = peerId

namespace Network
namespace Services

namespace ApiNames

def coordinator : ApiName := .new "Coordinator" (by decide +kernel)

def replica : ApiName := .new "Replica" (by decide +kernel)

def cluster : ApiName := .new "Cluster2" (by decide +kernel)

def metrics : ApiName := .new "Metrics" (by decide +kernel)

end ApiNames

/-! ## What is served -/

section Servers

variable (peerIdOf : N → P) (view : View Settings (Operator P N))

/-- `new_storage_api` of the coordinator: its error is `unauthorized`. -/
def coordinatorApi : Router P :=
  .api ApiNames.coordinator fun peer =>
    if view.nodeOperators.containsClient peer then none
    else some (StorageApi.Rpc.Error.ofError StorageApi.Error.unauthorized).code

def replicaApi : Router P :=
  .api ApiNames.replica fun peer =>
    if view.nodeOperators.containsNode peerIdOf peer then none
    else some (StorageApi.Rpc.Error.ofError StorageApi.Error.unauthorized).code

/-- `ConnectionRejectionReason::Unauthorized` of the metrics API. -/
def metricsUnauthorized : UInt8 := 1

/-- The provider of a node, which asks the cluster. -/
def metricsApi : Router P :=
  .api ApiNames.metrics fun peer =>
    if view.nodeOperators.containsNode peerIdOf peer then none else some metricsUnauthorized

def clusterApi : Router P := .api ApiNames.cluster fun _ => none

/-- `Server::multiplex`. -/
def multiplex (self api : Router P) : Router P := .multiplexer api self

end Servers

inductive Port where
  | primary
  | secondary
deriving DecidableEq

/-- The server of a node at a port. -/
def nodeRouter (peerIdOf : N → P) (view : View Settings (Operator P N)) : Port → Router P
  | .primary => multiplex (multiplex (coordinatorApi view) (replicaApi peerIdOf view)) clusterApi
  | .secondary =>
    multiplex (multiplex (coordinatorApi view) (replicaApi peerIdOf view)) (metricsApi peerIdOf view)

/-- Who may use which API at which port, by the view of the node. -/
def Authorized (peerIdOf : N → P) (view : View Settings (Operator P N)) (peer : P) (port : Port)
    (api : ApiName) : Prop :=
  api = ApiNames.coordinator ∧ view.nodeOperators.containsClient peer = true ∨
  api = ApiNames.replica ∧ view.nodeOperators.containsNode peerIdOf peer = true ∨
  api = ApiNames.cluster ∧ port = .primary ∨
  api = ApiNames.metrics ∧ port = .secondary ∧ view.nodeOperators.containsNode peerIdOf peer = true

theorem admits_nodeRouter (peerIdOf : N → P) (view : View Settings (Operator P N)) (peer : P)
    (port : Port) (api : ApiName) :
    (nodeRouter peerIdOf view port).Admits api peer ↔ Authorized peerIdOf view peer port api := by
  have hstorage : (coordinatorApi view).containsApi ApiNames.replica = false :=
    (by decide +kernel : decide (ApiNames.replica = ApiNames.coordinator) = false)
  have hother (name : ApiName) (h : (name = ApiNames.replica || name = ApiNames.coordinator) = false) :
      (multiplex (coordinatorApi view) (replicaApi peerIdOf view)).containsApi name = false := h
  have hunauthorized {b : Bool} {reason : UInt8} :
      (if b then none else some reason) = none ↔ b = true := by
    cases b <;> simp
  cases port with
  | primary =>
    rw [nodeRouter, multiplex, clusterApi, Router.admits_multiplexer (hother _ (by decide +kernel)),
      multiplex, replicaApi, Router.admits_multiplexer hstorage, coordinatorApi, Router.admits_api,
      hunauthorized, hunauthorized, Authorized]
    grind
  | secondary =>
    rw [nodeRouter, multiplex, metricsApi, Router.admits_multiplexer (hother _ (by decide +kernel)),
      multiplex, replicaApi, Router.admits_multiplexer hstorage, coordinatorApi, Router.admits_api,
      hunauthorized, hunauthorized, hunauthorized, Authorized]
    grind

/-! ## Who is connected -/

section Connected

variable {A : Type} (peerIdOf : N → P) (views : View Settings (Operator P N) → Prop) (ports : A → Port)
  (target : Target P A)

/-- Whoever has the identity of the node is the node, with one of its views. -/
def Served (w : World P A) : Prop :=
  ∀ addr server, w.servers addr = some server → server.peerId = target.remotePeerId →
    ∃ view, views view ∧ server.router = nodeRouter peerIdOf view (ports addr)

/-- A step after which the node is served by one of its views. -/
def ServedStep (w w' : World P A) : Prop :=
  Rpc.Connections.Step target w w' ∧ Served peerIdOf views ports target w'

/-- The node had a view when it admitted the client, by which the client was authorized. -/
def AuthorizedBy (serving : Serving P A) : Prop :=
  ∃ view, views view ∧ serving.server.router = nodeRouter peerIdOf view (ports serving.addr) ∧
    Authorized peerIdOf view serving.clientId (ports serving.addr) serving.api

/-- What the node serves, it serves with one of its views. -/
def ServedBy (w : World P A) : Prop :=
  ∀ serving ∈ w.served, serving.server.peerId = target.remotePeerId →
    ∃ view, views view ∧ serving.server.router = nodeRouter peerIdOf view (ports serving.addr)

variable {peerIdOf views ports target}

theorem servedBy_invariant : Invariant (ServedStep peerIdOf views ports target)
    fun w => Served peerIdOf views ports target w ∧ ServedBy peerIdOf views ports target w := by
  rintro w w' ⟨hserved, hby⟩ ⟨hstep, hserved'⟩
  refine ⟨hserved', ?_⟩
  cases hstep with
  | other hserver =>
    intro serving hmem
    rcases mem_answer.mp hmem with ⟨-, rfl⟩ | hmem
    · exact hserved _ _ hserver
    · exact hby serving hmem
  | serve _ hserver =>
    intro serving hmem
    rcases mem_answer.mp hmem with ⟨-, rfl⟩ | hmem
    · exact hserved _ _ hserver
    · exact hby serving hmem
  | _ => exact hby

theorem Served.run {w w' : World P A} (h : Served peerIdOf views ports target w)
    (hrun : Run (SteadyStep target) w w') : Run (ServedStep peerIdOf views ports target) w w' := by
  have hboth : Run (ServedStep peerIdOf views ports target) w w' ∧
      Served peerIdOf views ports target w' := by
    induction hrun with
    | refl => exact ⟨.refl, h⟩
    | @tail _ w₂ _ hstep ih =>
      obtain ⟨hstep, hservers⟩ := hstep
      have hserved : Served peerIdOf views ports target w₂ := by
        intro addr server hserver
        rw [hservers] at hserver
        exact ih.2 addr server hserver
      exact ⟨ih.1.tail ⟨hstep, hserved⟩, hserved⟩
  exact hboth.1

/-- The node serves an API to a peer, on a transport connection of the peer's, only if the view that it
had in the handshake of this transport connection authorized the peer. A peer holds only a transport
connection that the node serves to it. A peer that the current view of the node authorizes can
connect. -/
theorem connected_authorized (peerIdOf : N → P) (views : View Settings (Operator P N) → Prop)
    (ports : A → Port) (target : Target P A) {servers : A → Option (Server P)}
    (hserved : Served peerIdOf views ports target (.start servers .newConnection)) {w : World P A}
    (hrun : Run (ServedStep peerIdOf views ports target) (.start servers .newConnection) w) :
    (∀ serving ∈ w.served, serving.server.peerId = target.remotePeerId →
      AuthorizedBy peerIdOf views ports serving) ∧
    (∀ link, w.conn.watch = some link → (∃ serving ∈ w.served, serving.id = link.id) ∧
      ∀ serving ∈ w.served, serving.id = link.id →
        serving.addr = target.remoteAddr ∧ serving.api = target.api ∧
        serving.clientId = target.clientId ∧ AuthorizedBy peerIdOf views ports serving) ∧
    (∀ view, w.conn.held = true →
      w.servers target.remoteAddr =
        some ⟨target.remotePeerId, nodeRouter peerIdOf view (ports target.remoteAddr)⟩ →
      Authorized peerIdOf view target.clientId (ports target.remoteAddr) target.api →
      ∃ w', Run (ServedStep peerIdOf views ports target) w w' ∧ w'.conn.isClosed = false) := by
  have hrun' : Run (Rpc.Connections.Step target) (.start servers .newConnection) w :=
    Relation.ReflTransGen.mono (fun _ _ h => h.1) _ _ hrun
  have hsafe := (safe_invariant target).run hrun' (safe_start target servers (.inl rfl))
  obtain ⟨hserved', hby⟩ := servedBy_invariant.run hrun
    ⟨hserved, fun _ hmem => absurd hmem List.not_mem_nil⟩
  have hauthorized : ∀ serving ∈ w.served, serving.server.peerId = target.remotePeerId →
      AuthorizedBy peerIdOf views ports serving := by
    intro serving hmem hpeer
    obtain ⟨view, hview, hrouter⟩ := hby serving hmem hpeer
    have hadmits := hsafe.admits serving hmem
    rw [hrouter, admits_nodeRouter] at hadmits
    exact ⟨view, hview, hrouter, hadmits⟩
  refine ⟨hauthorized, fun link hlink => ?_, fun view hheld hserver hview => ?_⟩
  · obtain ⟨-, hadmitted⟩ := hsafe.link link hlink
    refine ⟨hadmitted.noted, fun serving hmem hid => ?_⟩
    obtain ⟨hpeer, haddr, hapi, hclient⟩ := hadmitted.expected serving hmem hid
    exact ⟨haddr, hapi, hclient, hauthorized serving hmem hpeer⟩
  · have henabled := (reconnectEnabled_invariant target).run hrun' rfl
    obtain ⟨w', hopen, hclosed⟩ := exists_run_open hheld henabled hserver rfl
      ((admits_nodeRouter _ _ _ _ _).mpr hview)
    exact ⟨w', hserved'.run hopen, hclosed⟩

/-- The client of the first operator's, at a node of the new cluster. -/
def clientTarget : Target UInt8 Unit := ⟨1, ApiNames.coordinator, (), 7⟩

/-- Whatever is at its address is the node, with a view of the new cluster. -/
def nodeServer (view : View Settings (Operator UInt8 (Cluster.OperatorData.Node UInt8))) : Server UInt8 :=
  ⟨7, nodeRouter (·.peerId) view .primary⟩

theorem connected_authorized_client :
    ∃ view w, setup.views view ∧ w.conn.isClosed = false ∧
      Run (ServedStep (·.peerId) setup.views (fun _ => .primary) clientTarget)
        (.start (fun _ => some (nodeServer view)) .newConnection) w ∧
      ∃ serving ∈ w.served, AuthorizedBy (·.peerId) setup.views (fun _ => .primary) serving := by
  obtain ⟨view, hview⟩ := exists_view
  have hserved : Served (·.peerId) setup.views (fun _ => .primary) clientTarget
      (.start (fun _ => some (nodeServer view)) .newConnection) := by
    rintro _ _ ⟨⟩ _
    exact ⟨view, hview, rfl⟩
  have hauthorized : Authorized (·.peerId) view clientTarget.clientId .primary clientTarget.api :=
    .inl ⟨rfl, (containsClient_view hview).1⟩
  obtain ⟨w, hrun, hopen⟩ := (connected_authorized (·.peerId) setup.views (fun _ => .primary)
    clientTarget hserved .refl).2.2 view rfl rfl hauthorized
  obtain ⟨link, hlink⟩ : ∃ link, w.conn.watch = some link := by
    cases hwatch : w.conn.watch with
    | none =>
      rw [Connection.isClosed, hwatch] at hopen
      cases hopen
    | some link => exact ⟨link, rfl⟩
  obtain ⟨⟨serving, hmem, hid⟩, hexpected⟩ := (connected_authorized (·.peerId) setup.views
    (fun _ => .primary) clientTarget hserved hrun).2.1 link hlink
  exact ⟨view, w, hview, hopen, hrun, serving, hmem, (hexpected serving hmem hid).2.2.2⟩

end Connected

end Services
end Network
end Wcn
