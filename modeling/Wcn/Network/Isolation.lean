import Wcn.Cluster.Operations
import Wcn.Migration.Exchange
import Wcn.Replication.Repairs
import Wcn.Storage.Namespaces
import Wcn.Storage.Transfer

/-!
# Wcn.Network.Isolation

Who gets at the data of a namespace. Clients send operations to coordinators; a coordinator that finds
the client authorized for the namespace, in its own view of the cluster, sends the operation to
replicas, and repairs those that are behind. Replicas execute what they get on their databases. The
databases also compact themselves, and nodes pull records from each other.

`Step` has all of that for the whole network, with delays and failures anywhere.

* `Same` — what a run has in common with a run that has only some of its operations.
* `clients_isolated` — the namespaces of some operators, and the replies about them, are as if only
  the clients authorized for them had ever sent an operation, and only about them.
-/

namespace Wcn

open Lib Cluster Storage StorageApi
open Contract (Address)
open Contract.Bitmask (Idx)
open OperatorData (Operator)

variable {P N : Type}

/-! ## Authorization -/

namespace Storage.Namespace

def nodeOperatorId (self : Namespace) : Address := BitVec.ofNat 160 (ofBe (self.asBytes.take 20))

/-- The last byte. -/
def idx (self : Namespace) : UInt8 := self.bytes.get 20

end Storage.Namespace

namespace Cluster.NodeOperators

variable [DecidableEq P]

def get (operators : NodeOperators (Operator P N)) (id : Address) :
    Option (NodeOperator (Operator P N)) :=
  (operators.getIdx id).bind operators.getByIdx

/-- An operator with corrupted data has none. -/
def clients (operator : NodeOperator (Operator P N)) : List (OperatorData.Client P) :=
  operator.data.elim [] (·.clients)

def containsClient (operators : NodeOperators (Operator P N)) (peerId : P) : Bool :=
  operators.slots.any fun slot => slot.any fun operator =>
    (clients operator).any fun client => client.peerId = peerId

def isAuthorizedClient (operators : NodeOperators (Operator P N)) (peerId : P) (operatorId : Address)
    (namespaceIdx : UInt8) : Bool :=
  (operators.get operatorId).any fun operator => (clients operator).any fun client =>
    client.peerId = peerId ∧ namespaceIdx ∈ client.authorizedNamespaces

end Cluster.NodeOperators

namespace Network

open Replication (Collector Quorum KeyedOperation repairRequests reply requests secondaryIfWrite
  secondaryInUse)
open Migration.Survival (Route)

/-- What the coordinator asks its view about an operation. -/
def isAuthorized [DecidableEq P] (view : View Settings (Operator P N)) (peerId : P)
    (ns : Namespace) : Bool :=
  view.nodeOperators.isAuthorizedClient peerId ns.nodeOperatorId ns.idx

/-! ## The network -/

/-- An operation at a coordinator. -/
structure Job (P : Type) where
  peer : P
  request : Request
  /-- None for a client that is not authorized. -/
  route : Option Route
  /-- Responses of replicas, also those on their way. -/
  sent : List (Address × Response Bytes)
  arrivals : List (Address × Response Bytes)

/-- What the coordinator has replied so far. -/
def Job.reply (job : Job P) : Option (Response Bytes) :=
  match job.route with
  | none => some (.error .unauthorized)
  | some route =>
    match (Collector.new route.primary
        (secondaryInUse job.request.operation route.secondary)).collect job.arrivals with
    | none => none
    | some (collector, idx, _) =>
      if collector.verdict.isSome ∨ job.arrivals.length =
          (requests job.request.operation route.primary route.secondary).length then
        some (Replication.reply id job.request.operation collector idx)
      else
        none

/-- A record on its way to a node that pulls it. -/
abbrev Frame := (ColumnFamilyName × Bytes) × DataContext Bytes

structure State (P : Type) where
  db : Address → Backend
  /-- The clients with a connection to a coordinator. -/
  connected : List P
  jobs : Nat → Option (Job P)
  frames : List Frame

namespace State

def init (db : Address → Backend) : State P := ⟨db, [], fun _ => none, []⟩

def setDb (s : State P) (o : Address) (db : Backend) : State P :=
  { s with db := Function.update s.db o db }

def setJob (s : State P) (i : Nat) (job : Job P) : State P :=
  { s with jobs := Function.update s.jobs i (some job) }

end State

/-- What is the same for all nodes, and the views that they can have. -/
structure Setup (P N : Type) where
  hash : Bytes → UInt64
  rendezvous : Idx → Nat → UInt64
  display : Error → String
  views : View Settings (Operator P N) → Prop

inductive Step [DecidableEq P] (setup : Setup P N) (sends : P → Namespace → Prop) :
    State P → State P → Prop where
  | connect {s : State P} {peer : P} {view : View Settings (Operator P N)} :
      setup.views view → view.nodeOperators.containsClient peer = true →
      Step setup sends s { s with connected := peer :: s.connected }
  | refuse {s : State P} {i : Nat} {peer : P} {request : Request}
      {view : View Settings (Operator P N)} :
      s.jobs i = none → peer ∈ s.connected → sends peer request.ns → setup.views view →
      request.key.length < 2 ^ 32 - 64 → isAuthorized view peer request.ns = false →
      Step setup sends s (s.setJob i ⟨peer, request, none, [], []⟩)
  | receive {s : State P} {i : Nat} {peer : P} {request : Request}
      {view : View Settings (Operator P N)} {t₁ t₂ : OffsetDateTime} {route : Route}
      {primary : List (NodeOperator (Operator P N))}
      {secondary : Option (List (NodeOperator (Operator P N)))} :
      s.jobs i = none → peer ∈ s.connected → sends peer request.ns → setup.views view →
      request.key.length < 2 ^ 32 - 64 → isAuthorized view peer request.ns = true →
      view.effectiveKeyspaceVersion t₁ = .ok route.keyspaceVersion →
      view.primaryReplicaSet setup.rendezvous (setup.hash request.key) = .ok primary →
      secondaryIfWrite setup.rendezvous view request.operation (setup.hash request.key) t₂ =
        .ok secondary →
      primary.map NodeOperator.id = route.primary.operators →
      secondary.map (List.map NodeOperator.id) =
        route.secondary.map Replication.ReplicaSet.operators →
      Step setup sends s (s.setJob i ⟨peer, request, some route, [], []⟩)
  -- a coordinator that gets no response tries the other nodes of the operator
  | deliver {s : State P} {i : Nat} {job : Job P} {route : Route} {o : Address}
      {view : View Settings (Operator P N)} {t : OffsetDateTime} (now : Nat) :
      s.jobs i = some job → job.route = some route →
      o ∈ requests job.request.operation route.primary route.secondary → setup.views view →
      view.validateStorageOperation route.keyspaceVersion t = .ok true →
      Step setup sends s ((s.setDb o (execute setup.hash now (s.db o) job.request).1).setJob i
        { job with
          sent := job.sent ++ [(o, (execute setup.hash now (s.db o) job.request).2.mapError
            (Replication.Replica.databaseError setup.display))] })
  | arrive {s : State P} {i : Nat} {job : Job P} {o : Address} {response : Response Bytes} :
      s.jobs i = some job → (o, response) ∈ job.sent → o ∉ job.arrivals.map (·.1) →
      Step setup sends s (s.setJob i { job with arrivals := job.arrivals ++ [(o, response)] })
  | fail {s : State P} {i : Nat} {job : Job P} {route : Route} {o : Address} {e : Error} :
      s.jobs i = some job → job.route = some route →
      o ∈ requests job.request.operation route.primary route.secondary →
      o ∉ job.arrivals.map (·.1) →
      Step setup sends s (s.setJob i { job with arrivals := job.arrivals ++ [(o, .error e)] })
  | repair {s : State P} {i : Nat} {job : Job P} {route : Route} {o : Address}
      {write : KeyedOperation} {now : Nat} :
      s.jobs i = some job → job.route = some route →
      (o, write) ∈ repairRequests ⟨job.request, some route.keyspaceVersion⟩ route.primary job.arrivals →
      Step setup sends s (s.setDb o (execute setup.hash now (s.db o) write.toRequest).1)
  | pull {s : State P} {o : Address} {frame : Frame} :
      (s.db o).toDatabase.record frame.1 = some frame.2 →
      Step setup sends s { s with frames := frame :: s.frames }
  | imports {s : State P} {o : Address} {frame : Frame} {now : Nat} :
      frame ∈ s.frames →
      Step setup sends s (s.setDb o ((s.db o).merge frame.1.1 frame.1.2 (frame.2.toMergeOp now)))
  | compact {s : State P} {o : Address} {name : ColumnFamilyName} {key : Bytes} {now nowMicros : Nat} :
      filterInternal now nowMicros ((s.db o).toDatabase.record (name, key)) = .remove →
      Step setup sends s (s.setDb o ((s.db o).remove name key))

/-! ## Databases -/

section Databases

variable {ns : Namespace} {db db' : Backend} {name : ColumnFamilyName} {key : Bytes}

theorem agreeOn_merge_other (h : AgreeOn ns db db') (hkey : ¬ OwnedBy ns key) (op : MergeOp Bytes) :
    AgreeOn ns (db.merge name key op) db' := by
  intro name' k hk
  rw [Backend.toDatabase_merge, Database.record_merge_of_ne]
  · exact h name' k hk
  · rintro heq
    cases heq
    exact hkey hk

theorem record_remove_self (db : Backend) (name : ColumnFamilyName) (key : Bytes) :
    (db.remove name key).toDatabase.record (name, key) = none := by
  rw [Backend.record_toDatabase, Backend.remove]
  simp

theorem record_remove_of_ne {k : ColumnFamilyName × Bytes} (h : (name, key) ≠ k) (db : Backend) :
    (db.remove name key).toDatabase.record k = db.toDatabase.record k := by
  obtain ⟨name', key'⟩ := k
  rw [Backend.record_toDatabase, Backend.record_toDatabase, Backend.remove]
  dsimp only
  by_cases hname : name' = name
  · subst hname
    rw [Function.update_self, Std.ExtTreeMap.getElem?_erase]
    split
    · next heq => exact absurd (congrArg _ (compare_eq_iff_eq.mp heq)) h
    · rfl
  · rw [Function.update_of_ne hname]

theorem agreeOn_remove (h : AgreeOn ns db db') (name : ColumnFamilyName) (key : Bytes) :
    AgreeOn ns (db.remove name key) (db'.remove name key) := by
  intro name' k hk
  by_cases heq : (name, key) = (name', k)
  · rw [← heq, record_remove_self, record_remove_self]
  · rw [record_remove_of_ne heq, record_remove_of_ne heq]
    exact h name' k hk

theorem agreeOn_remove_other (h : AgreeOn ns db db') (hkey : ¬ OwnedBy ns key) :
    AgreeOn ns (db.remove name key) db' := by
  intro name' k hk
  rw [record_remove_of_ne]
  · exact h name' k hk
  · rintro heq
    cases heq
    exact hkey hk

end Databases

/-! ## Two runs -/

/-- The key belongs to one of the namespaces. -/
def Owned (spaces : Set Namespace) (key : Bytes) : Prop := ∃ ns ∈ spaces, OwnedBy ns key

/-- A job in the first run, and what there is of it in the second one: all of it, if the client is
trusted with its namespace. -/
structure SameJob (spaces : Set Namespace) (trusted : P → Prop) (found found' : Option (Job P)) :
    Prop where
  fresh : found = none → found' = none
  kept : ∀ job ∈ found, job.request.ns ∈ spaces → trusted job.peer → found' = some job
  refused : ∀ job ∈ found, job.request.ns ∈ spaces → ¬ trusted job.peer →
    job.route = none ∧ job.sent = []
  length_key : ∀ job ∈ found, job.request.key.length < 2 ^ 32 - 64

/-- What the two runs have in common. -/
structure Same (spaces : Set Namespace) (trusted : P → Prop) (s s' : State P) : Prop where
  agree : ∀ ns ∈ spaces, ∀ o, AgreeOn ns (s.db o) (s'.db o)
  connected : s'.connected = s.connected
  jobs : ∀ i, SameJob spaces trusted (s.jobs i) (s'.jobs i)
  frames : ∀ frame ∈ s.frames, Owned spaces frame.1.2 → frame ∈ s'.frames

section Same

variable {spaces : Set Namespace} {trusted : P → Prop} {s s' : State P} {i : Nat} {job : Job P}
  {found' : Option (Job P)} {o : Address} {db db' : Backend}

theorem SameJob.both (hlength : job.request.key.length < 2 ^ 32 - 64) (htrusted : trusted job.peer) :
    SameJob spaces trusted (some job) (some job) where
  fresh := by simp
  kept := by
    rintro _ ⟨⟩ _ _
    rfl
  refused := by
    rintro _ ⟨⟩ _ hnot
    exact absurd htrusted hnot
  length_key := by
    rintro _ ⟨⟩
    exact hlength

theorem SameJob.left (hlength : job.request.key.length < 2 ^ 32 - 64)
    (hjob : job.request.ns ∈ spaces → ¬ trusted job.peer ∧ job.route = none ∧ job.sent = []) :
    SameJob spaces trusted (some job) found' where
  fresh := by simp
  kept := by
    rintro _ ⟨⟩ hns htrusted
    exact absurd htrusted (hjob hns).1
  refused := by
    rintro _ ⟨⟩ hns _
    exact (hjob hns).2
  length_key := by
    rintro _ ⟨⟩
    exact hlength

/-- A job that is not the second run's is one that it needs nothing of. -/
theorem SameJob.not_kept (h : SameJob spaces trusted (some job) found')
    (hnot : ¬ (job.request.ns ∈ spaces ∧ trusted job.peer)) :
    job.request.ns ∈ spaces → ¬ trusted job.peer ∧ job.route = none ∧ job.sent = [] := fun hns =>
  have huntrusted : ¬ trusted job.peer := fun htrusted => hnot ⟨hns, htrusted⟩
  ⟨huntrusted, h.refused job rfl hns huntrusted⟩

namespace Same

theorem init (db : Address → Backend) : Same spaces trusted (State.init db : State P) (.init db) where
  agree _ _ _ _ _ _ := rfl
  connected := rfl
  jobs i := ⟨fun _ => rfl, by rintro _ ⟨⟩, by rintro _ ⟨⟩, by rintro _ ⟨⟩⟩
  frames _ h := by cases h

theorem setDb (h : Same spaces trusted s s') (hdb : ∀ ns ∈ spaces, AgreeOn ns db db') :
    Same spaces trusted (s.setDb o db) (s'.setDb o db') where
  agree ns hns o' := by
    by_cases heq : o' = o
    · subst heq
      simpa only [State.setDb, Function.update_self] using hdb ns hns
    · simpa only [State.setDb, Function.update_of_ne heq] using h.agree ns hns o'
  connected := h.connected
  jobs := h.jobs
  frames := h.frames

theorem setDb_left (h : Same spaces trusted s s') (hdb : ∀ ns ∈ spaces, AgreeOn ns db (s'.db o)) :
    Same spaces trusted (s.setDb o db) s' := by
  have hset := h.setDb (o := o) hdb
  rwa [show s'.setDb o (s'.db o) = s' by rw [State.setDb, Function.update_eq_self]] at hset

theorem setJobs (h : Same spaces trusted s s') (hjob : SameJob spaces trusted (some job) found') :
    Same spaces trusted (s.setJob i job) { s' with jobs := Function.update s'.jobs i found' } where
  agree := h.agree
  connected := h.connected
  jobs j := by
    by_cases heq : j = i
    · subst heq
      simpa only [State.setJob, Function.update_self] using hjob
    · simpa only [State.setJob, Function.update_of_ne heq] using h.jobs j
  frames := h.frames

/-- Jobs that both have are changed in both. -/
theorem setJob (h : Same spaces trusted s s') (hlength : job.request.key.length < 2 ^ 32 - 64)
    (htrusted : trusted job.peer) : Same spaces trusted (s.setJob i job) (s'.setJob i job) :=
  h.setJobs (.both hlength htrusted)

/-- Other jobs are changed in the first run only. -/
theorem setJob_left (h : Same spaces trusted s s') (hlength : job.request.key.length < 2 ^ 32 - 64)
    (hjob : job.request.ns ∈ spaces → ¬ trusted job.peer ∧ job.route = none ∧ job.sent = []) :
    Same spaces trusted (s.setJob i job) s' := by
  have hleft : SameJob spaces trusted (some job) (s'.jobs i) := .left hlength hjob
  have hset := h.setJobs (i := i) hleft
  rwa [Function.update_eq_self] at hset

end Same

end Same

theorem ns_of_mem_repairRequests {Op : Type} [DecidableEq Op] {request : KeyedOperation}
    {rs : Replication.ReplicaSet Op} {arrivals : List (Op × Response Bytes)} {o : Op}
    {write : KeyedOperation} (h : (o, write) ∈ repairRequests request rs arrivals) :
    write.ns = request.ns := by
  obtain ⟨_, _, heq⟩ := List.mem_map.mp h
  cases heq
  rfl

section Steps

variable [DecidableEq P] {setup : Setup P N} {sends : P → Namespace → Prop} {spaces : Set Namespace}
  {trusted : P → Prop} {s s₁ s' : State P}

/-- A step is matched by the same step, or by none. -/
theorem Same.step
    (hviews : ∀ view, setup.views view → ∀ peer, ∀ ns ∈ spaces,
      isAuthorized view peer ns = true → trusted peer)
    (h : Same spaces trusted s s') (hstep : Step setup sends s s₁) :
    ∃ s₁', Run (Step setup fun peer ns => trusted peer ∧ ns ∈ spaces) s' s₁' ∧
      Same spaces trusted s₁ s₁' := by
  -- the job of a step is in both runs, or the second one has nothing of it
  have hfound : ∀ {i job}, s.jobs i = some job → SameJob spaces trusted (some job) (s'.jobs i) :=
    fun {i job} hjob => hjob ▸ h.jobs i
  cases hstep with
  | connect hview hcontains =>
    refine ⟨_, .single (.connect hview hcontains), ⟨h.agree, ?_, h.jobs, h.frames⟩⟩
    exact congrArg (_ :: ·) h.connected
  | @refuse i peer request view hfresh hpeer hsends hview hlength hunauthorized =>
    by_cases hjob : request.ns ∈ spaces ∧ trusted peer
    · exact ⟨_, .single (.refuse ((h.jobs i).fresh hfresh) (h.connected ▸ hpeer) ⟨hjob.2, hjob.1⟩ hview
        hlength hunauthorized), h.setJob hlength hjob.2⟩
    · exact ⟨s', .refl, h.setJob_left hlength fun hns =>
        ⟨fun htrusted => hjob ⟨hns, htrusted⟩, rfl, rfl⟩⟩
  | @receive i peer request view _ _ route _ _ hfresh hpeer hsends hview hlength hauthorized hversion
      hprimary hsecondary hprimaryIds hsecondaryIds =>
    by_cases hns : request.ns ∈ spaces
    · have htrusted := hviews view hview peer _ hns hauthorized
      exact ⟨_, .single (.receive ((h.jobs i).fresh hfresh) (h.connected ▸ hpeer) ⟨htrusted, hns⟩ hview
        hlength hauthorized hversion hprimary hsecondary hprimaryIds hsecondaryIds),
        h.setJob hlength htrusted⟩
    · exact ⟨s', .refl, h.setJob_left hlength fun hmem => absurd hmem hns⟩
  | @deliver i job route o view t now hjob hroute ho hview haccept =>
    have hlength := (hfound hjob).length_key job rfl
    by_cases hkept : job.request.ns ∈ spaces ∧ trusted job.peer
    · obtain ⟨hns, htrusted⟩ := hkept
      have hjob' := (hfound hjob).kept job rfl hns htrusted
      have hresponse : (execute setup.hash now (s.db o) job.request).2 =
          (execute setup.hash now (s'.db o) job.request).2 :=
        (h.agree _ hns o).response rfl hlength
      refine ⟨_, .single (.deliver now hjob' hroute ho hview haccept), ?_⟩
      rw [hresponse]
      exact (h.setDb fun ns hmem => (h.agree ns hmem o).execute job.request).setJob hlength htrusted
    · have hother := (hfound hjob).not_kept hkept
      have hns : job.request.ns ∉ spaces := fun hns => by
        rw [(hother hns).2.1] at hroute
        cases hroute
      exact ⟨s', .refl, (h.setDb_left fun ns hmem => (h.agree ns hmem o).execute_other
        fun heq => hns (heq ▸ hmem)).setJob_left hlength fun hmem => absurd hmem hns⟩
  | @arrive i job o response hjob hsent hnew =>
    have hlength := (hfound hjob).length_key job rfl
    by_cases hkept : job.request.ns ∈ spaces ∧ trusted job.peer
    · obtain ⟨hns, htrusted⟩ := hkept
      exact ⟨_, .single (.arrive ((hfound hjob).kept job rfl hns htrusted) hsent hnew),
        h.setJob hlength htrusted⟩
    · exact ⟨s', .refl, h.setJob_left hlength ((hfound hjob).not_kept hkept)⟩
  | @fail i job route o e hjob hroute ho hnew =>
    have hlength := (hfound hjob).length_key job rfl
    by_cases hkept : job.request.ns ∈ spaces ∧ trusted job.peer
    · obtain ⟨hns, htrusted⟩ := hkept
      exact ⟨_, .single (.fail ((hfound hjob).kept job rfl hns htrusted) hroute ho hnew),
        h.setJob hlength htrusted⟩
    · exact ⟨s', .refl, h.setJob_left hlength ((hfound hjob).not_kept hkept)⟩
  | @repair i job route o write now hjob hroute hwrite =>
    have hrequest := ns_of_mem_repairRequests hwrite
    by_cases hkept : job.request.ns ∈ spaces ∧ trusted job.peer
    · obtain ⟨hns, htrusted⟩ := hkept
      exact ⟨_, .single (.repair ((hfound hjob).kept job rfl hns htrusted) hroute hwrite),
        h.setDb fun ns hmem => (h.agree ns hmem o).execute write.toRequest⟩
    · refine ⟨s', .refl, h.setDb_left fun ns hmem => (h.agree ns hmem o).execute_other fun heq => ?_⟩
      rw [((hfound hjob).not_kept hkept ((hrequest.symm.trans heq) ▸ hmem)).2.1] at hroute
      cases hroute
  | @pull o frame hframe =>
    by_cases howned : Owned spaces frame.1.2
    · obtain ⟨ns, hns, hkey⟩ := howned
      have hframe' := (h.agree ns hns o frame.1.1 frame.1.2 hkey).symm.trans hframe
      refine ⟨_, .single (.pull hframe'), ⟨h.agree, h.connected, h.jobs, fun other hother hmem => ?_⟩⟩
      rcases List.mem_cons.mp hother with rfl | hother
      · exact List.mem_cons_self
      · exact List.mem_cons_of_mem _ (h.frames other hother hmem)
    · refine ⟨s', .refl, ⟨h.agree, h.connected, h.jobs, fun other hother hmem => ?_⟩⟩
      rcases List.mem_cons.mp hother with rfl | hother
      · exact absurd hmem howned
      · exact h.frames other hother hmem
  | @imports o frame now hframe =>
    by_cases howned : Owned spaces frame.1.2
    · exact ⟨_, .single (.imports (h.frames frame hframe howned)),
        h.setDb fun ns hmem => (h.agree ns hmem o).merge _ _ _⟩
    · exact ⟨s', .refl, h.setDb_left fun ns hmem =>
        agreeOn_merge_other (h.agree ns hmem o) (fun hkey => howned ⟨ns, hmem, hkey⟩) _⟩
  | @compact o name key now nowMicros hremove =>
    by_cases howned : Owned spaces key
    · obtain ⟨ns, hns, hkey⟩ := howned
      rw [h.agree ns hns o name key hkey] at hremove
      exact ⟨_, .single (.compact hremove),
        h.setDb fun ns' hmem => agreeOn_remove (h.agree ns' hmem o) name key⟩
    · exact ⟨s', .refl, h.setDb_left fun ns hmem =>
        agreeOn_remove_other (h.agree ns hmem o) fun hkey => howned ⟨ns, hmem, hkey⟩⟩

end Steps

/-- Let only some clients be authorized for some namespaces, in every view of the cluster that a node
can have. Whatever others send, and whatever is sent about other namespaces, in any order and with any
failures, the databases hold of these namespaces what they could hold if it had not been sent, and the
coordinators reply the same to the operations of these clients about them. All other operations about
them are refused. -/
theorem clients_isolated [DecidableEq P] (setup : Setup P N) (spaces : Set Namespace)
    (trusted : P → Prop)
    (hviews : ∀ view, setup.views view → ∀ peer, ∀ ns ∈ spaces,
      isAuthorized view peer ns = true → trusted peer)
    (db : Address → Backend) {s : State P} (hrun : Run (Step setup fun _ _ => True) (.init db) s) :
    ∃ s', Run (Step setup fun peer ns => trusted peer ∧ ns ∈ spaces) (.init db) s' ∧
      (∀ ns ∈ spaces, ∀ o, AgreeOn ns (s.db o) (s'.db o)) ∧
      ∀ i job, s.jobs i = some job → job.request.ns ∈ spaces →
        (trusted job.peer → s'.jobs i = some job) ∧
        (¬ trusted job.peer → job.reply = some (.error .unauthorized)) := by
  obtain ⟨s', hrun', hsame⟩ := Run.matched (R := Same spaces trusted)
    (fun _ _ _ h hstep => h.step hviews hstep) (.init db) hrun
  refine ⟨s', hrun', hsame.agree, fun i job hjob hns => ⟨(hsame.jobs i).kept job hjob hns, ?_⟩⟩
  intro huntrusted
  rw [Job.reply, ((hsame.jobs i).refused job hjob hns huntrusted).1]

/-! ## Six operators -/

/-- Six operators, each with a client of its own. -/
def sixWithClients : List (Operator UInt8 (OperatorData.Node UInt8)) :=
  sixAlike.map fun operator => { operator with clients := [⟨.ofNat operator.id.toNat, [0, 1]⟩] }

/-- Their contract, when it is new. -/
def contract : Contract.State :=
  let (settings, operators) := result (⟨0, 0, []⟩, [])
    (deploy OperatorData.byteIds OperatorData.reversing zeroKey .default sixWithClients)
  result {} (Contract.initializeCluster (Contract.transaction 99 10) settings operators)

/-- Namespaces of the first operator. -/
def firstSpace (idx : UInt8) : Namespace :=
  ⟨(((Vector.replicate 19 0).push 1).push idx)⟩

def config : Config Settings (Operator UInt8 (OperatorData.Node UInt8)) :=
  OperatorData.config OperatorData.byteIds OperatorData.reversing zeroKey (fun _ node => node)
    Settings.tryFromSc

/-- All nodes have read the new contract. -/
def setup : Setup UInt8 (OperatorData.Node UInt8) where
  hash _ := 0
  rendezvous := preferLater
  display _ := ""
  views view := snapshot config contract = .ok view

/-- What the nodes ask their view, in a form that can be computed. -/
structure Overview where
  clients : Option (List (OperatorData.Client UInt8))
  contained : List Bool
  replicas : List (Option Address)
  sized : Bool
  shadowing : Option Bool
  version : Option Nat
  accepted : Option Bool
deriving DecidableEq

def overview (view : View Settings (Operator UInt8 (OperatorData.Node UInt8))) : Overview where
  clients := (view.nodeOperators.get (firstSpace 0).nodeOperatorId).map NodeOperators.clients
  contained := [1, 2].map view.nodeOperators.containsClient
  replicas := preferred view view.keyspace
  sized := 5 ≤ view.keyspace.operators.card
  shadowing := (view.isSecondaryKeyspaceShadowingOn (instant 12000)).toOption
  version := (view.effectiveKeyspaceVersion (instant 12000)).toOption
  accepted := (view.validateStorageOperation 0 (instant 12000)).toOption

theorem overview_contract : (snapshot config contract).toOption.map overview =
    some ⟨some [⟨1, [0, 1]⟩], [true, true], [6, 5, 4, 3, 2].map some, true, some false, some 0,
      some true⟩ := by
  decide +kernel

section Example

variable {view : View Settings (Operator UInt8 (OperatorData.Node UInt8))}

theorem exists_view : ∃ view, setup.views view := by
  obtain ⟨view, hview, _⟩ := Option.map_eq_some_iff.mp overview_contract
  exact ⟨view, toOption_eq_some.mp hview⟩

theorem overview_view (h : setup.views view) :
    overview view = ⟨some [⟨1, [0, 1]⟩], [true, true], [6, 5, 4, 3, 2].map some, true, some false,
      some 0, some true⟩ := by
  obtain ⟨view', hview', hoverview⟩ := Option.map_eq_some_iff.mp overview_contract
  cases h.symm.trans (toOption_eq_some.mp hview')
  exact hoverview

/-- The clients of the first two operators can connect. -/
theorem containsClient_view (h : setup.views view) :
    view.nodeOperators.containsClient 1 = true ∧ view.nodeOperators.containsClient 2 = true := by
  obtain ⟨_, hcontained, _⟩ := Overview.mk.inj (overview_view h)
  obtain ⟨hfirst, hsecond⟩ := List.cons.inj hcontained
  exact ⟨hfirst, (List.cons.inj hsecond).1⟩

/-- Only its own client is authorized for the first operator's namespace. -/
theorem isAuthorized_view (h : setup.views view) (peer : UInt8) :
    isAuthorized view peer (firstSpace 0) = true ↔ peer = 1 := by
  obtain ⟨hclients, _⟩ := Overview.mk.inj (overview_view h)
  obtain ⟨operator, hoperator, hclients⟩ := Option.map_eq_some_iff.mp hclients
  rw [isAuthorized, NodeOperators.isAuthorizedClient, hoperator, Option.any_some, hclients]
  simp [show (firstSpace 0).idx = 0 from rfl, eq_comm]

def route : Route := ⟨0, ⟨[6, 5, 4, 3, 2], rfl, by decide⟩, none⟩

def request (operation : Operation Bytes) : Request := ⟨firstSpace 0, [5], operation⟩

/-- The sixth operator's database executes a request about the namespace, and responds. -/
def respond (now : Nat) (db : Backend) (operation : Operation Bytes) : Response Bytes :=
  (execute setup.hash now db (request operation)).2.mapError
    (Replication.Replica.databaseError setup.display)

/-- The client of the first operator sends an operation, which the sixth operator executes. -/
def ask (i now : Nat) (operation : Operation Bytes) (s : State UInt8) : State UInt8 :=
  (s.setDb 6 (execute setup.hash now (s.db 6) (request operation)).1).setJob i
    ⟨1, request operation, some route, [(6, respond now (s.db 6) operation)], []⟩

theorem run_ask (h : setup.views view) {s : State UInt8} {i : Nat} (hfree : s.jobs i = none)
    (hpeer : 1 ∈ s.connected) (now : Nat) (operation : Operation Bytes) :
    Run (Step setup fun _ _ => True) s (ask i now operation s) := by
  obtain ⟨_, _, hreplicas, hsized, hshadowing, hversion, haccepted⟩ :=
    Overview.mk.inj (overview_view h)
  obtain ⟨primary, hprimary, hids⟩ := exists_preferred (of_decide_eq_true hsized) hreplicas
  have hsecondary : secondaryIfWrite preferLater view operation 0 (instant 12000) = .ok none := by
    unfold secondaryIfWrite
    split
    · exact View.secondaryReplicaSet_of_not_shadowing preferLater 0 (toOption_eq_some.mp hshadowing)
    · rfl
  have hlength : ([5] : Bytes).length < 2 ^ 32 - 64 := by decide
  have hreceive : Step setup (fun _ _ => True) s
      (s.setJob i ⟨1, request operation, some route, [], []⟩) :=
    .receive hfree hpeer trivial h hlength ((isAuthorized_view h 1).mpr rfl)
      (toOption_eq_some.mp hversion) hprimary hsecondary hids rfl
  have hmem : 6 ∈ requests operation route.primary route.secondary :=
    (Replication.mem_requests ..).mpr (.inl (by decide))
  have hdeliver : Run (Step setup fun _ _ => True) s _ := .tail (.single hreceive)
    (.deliver now (Function.update_self ..) rfl hmem h (toOption_eq_some.mp haccepted))
  simpa [ask, respond, State.setJob, State.setDb] using hdeliver

end Example

/-- The client of the first operator sets a key of its namespace and gets it back. That of the second
operator is refused, and the first two operations go as without the third. -/
theorem clients_isolated_second :
    ∃ s s' : State UInt8, Run (Step setup fun _ _ => True) (.init fun _ => .empty) s ∧
      Run (Step setup fun peer ns => peer = 1 ∧ ns ∈ ({firstSpace 0} : Set Namespace))
        (.init fun _ => .empty) s' ∧
      AgreeOn (firstSpace 0) (s.db 6) (s'.db 6) ∧
      (s'.jobs 1).map Job.sent = some [(6, .ok (.record (some ⟨[7], 100, 3⟩)))] ∧
      (s.jobs 2).map Job.reply = some (some (.error .unauthorized)) := by
  obtain ⟨view, hview⟩ := exists_view
  obtain ⟨hfirst, hsecond⟩ := containsClient_view hview
  have hunauthorized : isAuthorized view 2 (firstSpace 0) = false :=
    Bool.eq_false_iff.mpr fun h => absurd ((isAuthorized_view hview 2).mp h) (by decide)
  let s₀ : State UInt8 := ⟨fun _ => .empty, [2, 1], fun _ => none, []⟩
  let s₁ := ask 0 50 (.set ⟨[7], 100, 3⟩) s₀
  let refused : Job UInt8 := ⟨2, request .get, none, [], []⟩
  let s := (ask 1 51 .get s₁).setJob 2 refused
  have hrun : Run (Step setup fun _ _ => True) (.init fun _ => .empty) s := by
    have hconnected : Run (Step setup fun _ _ => True) (.init fun _ => .empty) s₀ :=
      .tail (.single (.connect hview hfirst)) (.connect hview hsecond)
    have hset : Run (Step setup fun _ _ => True) s₀ s₁ := run_ask hview rfl (by decide) ..
    have hget : Run (Step setup fun _ _ => True) s₁ (ask 1 51 .get s₁) :=
      run_ask hview rfl (List.mem_cons_of_mem _ List.mem_cons_self) ..
    exact (hconnected.trans (hset.trans hget)).tail
      (.refuse rfl List.mem_cons_self trivial hview (by decide) hunauthorized)
  have hsent : respond 51 (s₁.db 6) .get = .ok (.record (some ⟨[7], 100, 3⟩)) := by decide +kernel
  obtain ⟨s', hrun', hagree, hjobs⟩ := clients_isolated setup {firstSpace 0} (· = 1)
    (fun view hview peer ns hns hauthorized => by
      cases hns
      exact (isAuthorized_view hview peer).mp hauthorized) (fun _ => .empty) hrun
  refine ⟨s, s', hrun, hrun', hagree _ rfl 6, ?_, ?_⟩
  · rw [(hjobs 1 _ rfl rfl).1 rfl, Option.map_some, hsent]
  · rw [show s.jobs 2 = some refused from rfl, Option.map_some, (hjobs 2 refused rfl rfl).2 (by decide)]

end Network
end Wcn
