import Wcn.Cluster.MigrationIds
import Wcn.Migration.Manager

/-!
# Wcn.Migration.Completion

An operator's migration manager next to the chain. The node's view is kept by the task of the cluster,
and it may lag behind. Other accounts send whatever transactions they like.

* `World` — the chain and the node, the manager while it runs, the calls of `completeMigration` it has
  sent, and what has happened so far. A call that was sent may be included later, also when the manager
  has moved on or the process has restarted.
* `Backed` — the invariant: what the manager reports, or has sent, stands behind a transfer that
  returned. The transfer was for the migration in the view it read its shards from, which may be a later
  one than the manager's; the contract then refuses the call.
* `reported_pulls_done` — the contract accepts a completed pull only after this operator has transferred
  all shards it joins by that migration.
-/

namespace Wcn
namespace Migration

open Lib Cluster
open Contract (Address Env Call Transition transaction sixOperators)
open Contract.Bitmask (Idx fill)
open Sharding (ShardId)

variable {D : Type}

inductive Happening (D : Type) where
  /-- A run of `transfer_data` returned. -/
  | transferReturned (run : TransferRun D)
  /-- The contract accepted this operator's `completeMigration`. -/
  | accepted (migrationId : Nat)

structure World (D : Type) where
  cluster : Cluster.World Settings D
  /-- The last view of the node, which a restart does not forget. -/
  latest : Option (View Settings D)
  manager : Option (Manager D)
  sent : List Nat
  /-- The last happening comes first. -/
  history : List (Happening D)

namespace World

def initial (s : Contract.State) : World D := ⟨⟨⟨s, [], []⟩, none, []⟩, none, none, [], []⟩

/-- The manager goes on with what its future did. -/
def proceed (w : World D) (manager : Manager D) (view : View Settings D) : Outcome D → World D
  | .running future => { w with manager := some { manager with stateFut := future } }
  | .sent future migrationId =>
    { w with
      manager := some { manager with stateFut := future }
      sent := migrationId :: w.sent }
  | .transferReturned run =>
    { w with
      manager := manager.handle view (.stateTransition (.completingMigration run.migrationId))
      history := .transferReturned run :: w.history }
  | .returned state => { w with manager := manager.handle view (.stateTransition state) }
  | .failed => { w with manager := some manager.retry }
  | .panicked => { w with manager := none }

/-- The steps of the chain, the node and the manager of the operator. -/
inductive Step (cfg : Config Settings D) (hash : Idx → Nat → UInt64) (nodeOperatorId : Address) :
    World D → World D → Prop where
  /-- Anything but a completed pull of this operator. -/
  | transaction {w : World D} {env : Env} {call : Call} {s : Contract.State}
      {event : Contract.Event} : Contract.exec env call w.cluster.chain.state = .ok (s, event) →
      (∀ migrationId, call = .completeMigration migrationId → env.sender ≠ nodeOperatorId) →
      Step cfg hash nodeOperatorId w
        { w with cluster := { w.cluster with chain := w.cluster.chain.append env s event } }
  | accept {w : World D} {env : Env} {migrationId : Nat} {s : Contract.State}
      {event : Contract.Event} : migrationId ∈ w.sent → env.sender = nodeOperatorId →
      Contract.exec env (.completeMigration migrationId) w.cluster.chain.state = .ok (s, event) →
      Step cfg hash nodeOperatorId w
        { w with
          cluster := { w.cluster with chain := w.cluster.chain.append env s event }
          history := .accepted migrationId :: w.history }
  /-- The node connects or its view is updated, never to an older one. -/
  | observe {w : World D} {cluster : Cluster.World Settings D} {task : Task Settings D} :
      Cluster.World.Step cfg w.cluster cluster → cluster.chain = w.cluster.chain →
      cluster.task = some task →
      (∀ view, w.latest = some view → view.clusterVersion ≤ task.view.clusterVersion) →
      Step cfg hash nodeOperatorId w { w with cluster := cluster, latest := some task.view }
  | run {w : World D} {task : Task Settings D} : w.cluster.task = some task → w.manager = none →
      Step cfg hash nodeOperatorId w { w with manager := some .new }
  | clusterUpdate {w : World D} {task : Task Settings D} {manager : Manager D} :
      w.cluster.task = some task → w.manager = some manager →
      Step cfg hash nodeOperatorId w { w with manager := manager.handle task.view .clusterUpdate }
  | shutdown {w : World D} {task : Task Settings D} {manager : Manager D} :
      w.cluster.task = some task → w.manager = some manager →
      Step cfg hash nodeOperatorId w { w with manager := manager.handle task.view .shutdown }
  | poll {w : World D} {task : Task Settings D} {manager : Manager D} {outcome : Outcome D} :
      w.cluster.task = some task → w.manager = some manager →
      Polls hash nodeOperatorId task.view manager.stateFut outcome →
      Step cfg hash nodeOperatorId w (w.proceed manager task.view outcome)
  | restart {w : World D} :
      Step cfg hash nodeOperatorId w
        { w with cluster := ⟨w.cluster.chain, none, []⟩, manager := none }

end World

/-! ## Transfers -/

/-- The operator replicates the key by the secondary keyspace, but not by the primary one. -/
def Joins (nodeOperatorId : Address) (old new : List (NodeOperator D)) : Prop :=
  nodeOperatorId ∈ new.map NodeOperator.id ∧ nodeOperatorId ∉ old.map NodeOperator.id

/-- A transfer is about an ongoing migration and has taken up every shard the operator joins by it. -/
structure TransferRun.Covers (hash : Idx → Nat → UInt64) (nodeOperatorId : Address)
    (run : TransferRun D) : Prop where
  ongoing : run.clusterView.migration.isInProgress = true
  joined : ∀ key, ∃ old new, run.clusterView.primaryReplicaSet hash key = .ok old ∧
    run.clusterView.secondaryReplicaSet hash key run.now = .ok (some new) ∧
    (Joins nodeOperatorId old new → ∃ source,
      (ShardId.fromKey key, source) ∈ run.remaining ∨ (ShardId.fromKey key, source) ∈ run.transferred)

section Transfers

variable {hash : Idx → Nat → UInt64} {nodeOperatorId : Address} {run : TransferRun D}

theorem TransferRun.start_covers {view : View Settings D} {migrationId : Nat}
    {now now' : OffsetDateTime}
    (h : TransferRun.start hash nodeOperatorId migrationId view now now' = .ok (some run)) :
    run.migrationId = migrationId ∧ run.clusterView = view ∧ run.Covers hash nodeOperatorId := by
  obtain ⟨_, _, h⟩ := bind_eq_ok.mp h
  obtain ⟨primary, hprimary, h⟩ := bind_eq_ok.mp h
  obtain ⟨secondary, hsecondary, h⟩ := bind_eq_ok.mp h
  cases secondary with
  | none => cases h
  | some secondary =>
    obtain ⟨shards, hshards, h⟩ := bind_eq_ok.mp h
    cases h
    refine ⟨rfl, rfl, ?_, fun key => ?_⟩
    · exact View.isInProgress_of_shadowing (View.secondaryKeyspaceShards_eq_some.mp hsecondary).1
    · obtain ⟨old, hold, hget⟩ := View.primaryKeyspaceShards_getElem? hprimary key
      obtain ⟨new, hnew, hget'⟩ := View.secondaryKeyspaceShards_getElem? hsecondary key
      refine ⟨old, new, hold, hnew, fun hjoins => ?_⟩
      obtain ⟨source, hsource⟩ := mem_shardTransfers hshards hget hget' hjoins.1 hjoins.2
      exact ⟨source, .inl hsource⟩

theorem TransferRun.Covers.complete (h : run.Covers hash nodeOperatorId) {idx : Nat}
    {shard : ShardId × NodeOperator D} (hshard : run.remaining[idx]? = some shard) :
    (run.complete idx shard).Covers hash nodeOperatorId := by
  refine ⟨h.ongoing, fun key => ?_⟩
  obtain ⟨old, new, hold, hnew, hjoined⟩ := h.joined key
  refine ⟨old, new, hold, hnew, fun hjoins => ?_⟩
  obtain ⟨source, hremaining | htransferred⟩ := hjoined hjoins
  · refine ⟨source, ?_⟩
    obtain ⟨hidx, rfl⟩ := List.getElem?_eq_some_iff.mp hshard
    have hperm := List.getElem_cons_eraseIdx_perm hidx
    rcases List.mem_cons.mp (hperm.mem_iff.mpr hremaining) with heq | hmem
    · exact .inr (List.mem_cons.mpr (.inl heq))
    · exact .inl hmem
  · exact ⟨source, .inr (List.mem_cons_of_mem _ htransferred)⟩

end Transfers

/-! ## The manager -/

section Manager

variable (hash : Idx → Nat → UInt64) (nodeOperatorId : Address)

/-- A transfer that returned stands behind the id. Here `current` is the id at the contract. -/
def Backed (current : Nat) (history : List (Happening D)) (migrationId : Nat) : Prop :=
  ∃ run, .transferReturned run ∈ history ∧ run.Covers hash nodeOperatorId ∧ run.remaining = [] ∧
    migrationId ≤ run.clusterView.migration.id ∧ run.clusterView.migration.id ≤ current

/-- Where the manager can be, with the id `latest` of the last view. -/
inductive Working (latest current : Nat) (history : List (Happening D)) : State → Future D → Prop where
  | idle : Working latest current history .idle .pending
  | transferData {migrationId : Nat} : migrationId ≤ latest →
      Working latest current history (.transferringData migrationId) (.transferData migrationId)
  | sleeping {migrationId : Nat} : migrationId ≤ latest →
      Working latest current history (.transferringData migrationId) (.sleeping migrationId)
  | transferring {run : TransferRun D} : run.migrationId ≤ latest →
      run.Covers hash nodeOperatorId → run.migrationId ≤ run.clusterView.migration.id →
      run.clusterView.migration.id ≤ current →
      Working latest current history (.transferringData run.migrationId) (.transferring run)
  | completing {migrationId : Nat} {future : Future D} :
      Backed hash nodeOperatorId current history migrationId →
      future = .completeMigration migrationId ∨ future = .submitting migrationId ∨
        future = .confirming migrationId →
      Working latest current history (.completingMigration migrationId) future
  | awaiting {migrationId : Nat} : Backed hash nodeOperatorId current history migrationId →
      Working latest current history (.awaitingMigrationCompletion migrationId)
        (.awaitMigrationCompletion migrationId)

variable {hash nodeOperatorId} {latest latest' current current' : Nat}
  {history history' : List (Happening D)} {manager manager' : Manager D} {state : State}
  {future : Future D}

theorem Backed.mono {migrationId : Nat} (h : Backed hash nodeOperatorId current history migrationId)
    (hcurrent : current ≤ current') (hhistory : history ⊆ history') :
    Backed hash nodeOperatorId current' history' migrationId := by
  obtain ⟨run, hmem, hcovers, hdone, hle, hle'⟩ := h
  exact ⟨run, hhistory hmem, hcovers, hdone, hle, hle'.trans hcurrent⟩

theorem Working.mono (h : Working hash nodeOperatorId latest current history state future)
    (hlatest : latest ≤ latest') (hcurrent : current ≤ current') (hhistory : history ⊆ history') :
    Working hash nodeOperatorId latest' current' history' state future := by
  cases h with
  | idle => exact .idle
  | transferData hle => exact .transferData (hle.trans hlatest)
  | sleeping hle => exact .sleeping (hle.trans hlatest)
  | transferring hle hcovers hview hview' =>
    exact .transferring (hle.trans hlatest) hcovers hview (hview'.trans hcurrent)
  | completing hbacked hfuture => exact .completing (hbacked.mono hcurrent hhistory) hfuture
  | awaiting hbacked => exact .awaiting (hbacked.mono hcurrent hhistory)

theorem Working.restarted (h : Working hash nodeOperatorId latest current history state future) :
    Working hash nodeOperatorId latest current history state (stateFuture state) := by
  cases h with
  | idle => exact .idle
  | transferData hle => exact .transferData hle
  | sleeping hle => exact .transferData hle
  | transferring hle _ _ _ => exact .transferData hle
  | completing hbacked _ => exact .completing hbacked (.inl rfl)
  | awaiting hbacked => exact .awaiting hbacked

theorem working_transition {newState : Option State}
    (h : Working hash nodeOperatorId latest current history manager.state manager.stateFut)
    (hnew : ∀ state, newState = some state →
      Working hash nodeOperatorId latest current history state (stateFuture state))
    (hmanager : manager.transition newState = some manager') :
    Working hash nodeOperatorId latest current history manager'.state manager'.stateFut := by
  cases newState with
  | none =>
    cases hmanager
    exact h
  | some state =>
    rw [Manager.transition] at hmanager
    split_ifs at hmanager
    cases hmanager
    exact hnew state rfl

/-- Synchronized with its view, a manager idles or transfers data for the ongoing migration. -/
theorem working_syncState {view : View Settings D} (hle : view.migration.id ≤ latest)
    {newState : State} (h : syncState state view = some newState) :
    Working hash nodeOperatorId latest current history newState (stateFuture newState) := by
  have hongoing : ∀ migrationId, view.ongoingMigrationId = some migrationId →
      migrationId ≤ latest := by
    intro migrationId hid
    unfold View.ongoingMigrationId at hid
    split_ifs at hid
    cases hid
    exact hle
  unfold syncState at h
  split at h
  · next a b _ hb =>
    split_ifs at h
    cases h
    exact .transferData (hongoing b hb)
  · cases h
  · cases h
    exact .idle
  · next b _ hb =>
    cases h
    exact .transferData (hongoing b hb)

variable (hash nodeOperatorId) in
/-- What an outcome leaves to be kept up. -/
def Keeps (latest current : Nat) (history : List (Happening D)) (state : State) : Outcome D → Prop
  | .running future => Working hash nodeOperatorId latest current history state future
  | .sent future migrationId => Working hash nodeOperatorId latest current history state future ∧
      Backed hash nodeOperatorId current history migrationId
  | .transferReturned run => Working hash nodeOperatorId latest current
      (.transferReturned run :: history) (.completingMigration run.migrationId)
      (.completeMigration run.migrationId)
  | .returned newState =>
      Working hash nodeOperatorId latest current history newState (stateFuture newState)
  | .failed => True
  | .panicked => True

/-- The view of a transfer is read after the one that showed its migration. -/
theorem working_polls {view : View Settings D} {outcome : Outcome D}
    (h : Working hash nodeOperatorId view.migration.id current history state future)
    (hcurrent : view.migration.id ≤ current) (hpolls : Polls hash nodeOperatorId view future outcome) :
    Keeps hash nodeOperatorId view.migration.id current history state outcome := by
  cases h with
  | idle => cases hpolls
  | transferData hle =>
    cases hpolls with
    | scheduled _ => exact .sleeping hle
    | missingMigration _ => trivial
    | schedulePanics _ => trivial
  | sleeping hle =>
    cases hpolls with
    | started hstart =>
      obtain ⟨rfl, rfl, hcovers⟩ := TransferRun.start_covers hstart
      exact .transferring hle hcovers hle hcurrent
    | missingShards _ => trivial
    | startPanics _ => trivial
  | @transferring run hle hcovers hview hview' =>
    cases hpolls with
    | shardTransferred hshard _ _ =>
      refine .transferring ?_ (hcovers.complete hshard) ?_ ?_
      · exact hle
      · exact hview
      · exact hview'
    | transferred hdone =>
      exact .completing ⟨run, List.mem_cons_self, hcovers, hdone, hview, hview'⟩ (.inl rfl)
  | completing hbacked hfuture =>
    rcases hfuture with rfl | rfl | rfl
    · cases hpolls with
      | submits _ => exact ⟨.completing hbacked (.inr (.inl rfl)), hbacked⟩
      | notPulling _ => exact .awaiting hbacked
      | notCompletable _ _ => trivial
    · cases hpolls with
      | submitted => exact .completing hbacked (.inr (.inr rfl))
      | submissionFailed => trivial
    · cases hpolls with
      | confirmed _ => exact .awaiting hbacked
      | unconfirmed => trivial
  | awaiting hbacked =>
    cases hpolls with
    | pullingAgain _ => exact .completing hbacked (.inl rfl)

end Manager

/-! ## Steps -/

namespace World

variable {cfg : Config Settings D} {hash : Idx → Nat → UInt64} {nodeOperatorId : Address}
  {w w' : World D}

/-- A transfer for this migration has returned, with all shards that the operator joins by it. -/
def Pulled (hash : Idx → Nat → UInt64) (nodeOperatorId : Address) (history : List (Happening D))
    (migrationId : Nat) : Prop :=
  ∃ run, .transferReturned run ∈ history ∧ run.clusterView.migration.isInProgress = true ∧
    run.clusterView.migration.id = migrationId ∧
    ∀ key, ∃ old new, run.clusterView.primaryReplicaSet hash key = .ok old ∧
      run.clusterView.secondaryReplicaSet hash key run.now = .ok (some new) ∧
      (Joins nodeOperatorId old new →
        ∃ source, (ShardId.fromKey key, source) ∈ run.transferred)

/-- The contract knows one migration. -/
theorem pulled_of_backed {env : Env} {migrationId : Nat} {s s' : Contract.State}
    {event : Contract.Event} {history : List (Happening D)}
    (h : Contract.exec env (.completeMigration migrationId) s = .ok (s', event))
    (hbacked : Backed hash nodeOperatorId s.migration.id history migrationId) :
    Pulled hash nodeOperatorId history migrationId := by
  obtain ⟨run, hmem, hcovers, hdone, hle, hle'⟩ := hbacked
  have hid : migrationId = s.migration.id := by
    rw [Contract.exec_iff] at h
    cases h <;> rfl
  refine ⟨run, hmem, hcovers.ongoing, Nat.le_antisymm (hid ▸ hle') hle, fun key => ?_⟩
  obtain ⟨old, new, hold, hnew, hjoined⟩ := hcovers.joined key
  refine ⟨old, new, hold, hnew, fun hjoins => ?_⟩
  obtain ⟨source, hremaining | htransferred⟩ := hjoined hjoins
  · rw [hdone] at hremaining
    cases hremaining
  · exact ⟨source, htransferred⟩

structure Sound (hash : Idx → Nat → UInt64) (nodeOperatorId : Address) (w : World D) : Prop where
  chain : w.cluster.chain.IdsGrow
  latest : ∀ view, w.latest = some view → ShowsId w.cluster.chain view
  stored : ∀ task, w.cluster.task = some task → w.latest = some task.view
  manager : ∀ manager, w.manager = some manager → ∃ view, w.latest = some view ∧
    Working hash nodeOperatorId view.migration.id w.cluster.chain.state.migration.id w.history
      manager.state manager.stateFut
  sent : ∀ migrationId ∈ w.sent,
    Backed hash nodeOperatorId w.cluster.chain.state.migration.id w.history migrationId
  accepted : ∀ after migrationId before, w.history = after ++ .accepted migrationId :: before →
    Pulled hash nodeOperatorId before migrationId

theorem Sound.append (hw : Sound hash nodeOperatorId w) {env : Env} {call : Call}
    {s : Contract.State} {event : Contract.Event}
    (h : Contract.exec env call w.cluster.chain.state = .ok (s, event)) :
    Sound hash nodeOperatorId
      { w with cluster := { w.cluster with chain := w.cluster.chain.append env s event } } := by
  have hgrows : w.cluster.chain.state.migration.id ≤ s.migration.id :=
    migrationId_le (Contract.exec_iff.mp h)
  constructor
  case chain => exact hw.chain.append h
  case latest => exact fun view hview => (hw.latest view hview).append
  case stored => exact hw.stored
  case manager =>
    intro manager hmanager
    obtain ⟨view, hview, hworking⟩ := hw.manager manager hmanager
    exact ⟨view, hview, hworking.mono (Nat.le_refl _) hgrows (List.Subset.refl _)⟩
  case sent => exact fun id hid => (hw.sent id hid).mono hgrows (List.Subset.refl _)
  case accepted => exact hw.accepted

/-- Something happens. -/
theorem Sound.happened (hw : Sound hash nodeOperatorId w) {happening : Happening D}
    (h : ∀ migrationId, happening = .accepted migrationId →
      Pulled hash nodeOperatorId w.history migrationId) :
    Sound hash nodeOperatorId { w with history := happening :: w.history } := by
  constructor
  case chain => exact hw.chain
  case latest => exact hw.latest
  case stored => exact hw.stored
  case manager =>
    intro manager hmanager
    obtain ⟨view, hview, hworking⟩ := hw.manager manager hmanager
    exact ⟨view, hview, hworking.mono (Nat.le_refl _) (Nat.le_refl _) (List.subset_cons_self _ _)⟩
  case sent => exact fun id hid => (hw.sent id hid).mono (Nat.le_refl _) (List.subset_cons_self _ _)
  case accepted =>
    intro after migrationId before hhistory
    cases after with
    | nil =>
      cases hhistory
      exact h migrationId rfl
    | cons _ after => exact hw.accepted after migrationId before (List.cons.inj hhistory).2

theorem Sound.setManager (hw : Sound hash nodeOperatorId w) {manager : Option (Manager D)}
    (h : ∀ manager', manager = some manager' → ∃ view, w.latest = some view ∧
      Working hash nodeOperatorId view.migration.id w.cluster.chain.state.migration.id w.history
        manager'.state manager'.stateFut) :
    Sound hash nodeOperatorId { w with manager := manager } :=
  ⟨hw.chain, hw.latest, hw.stored, h, hw.sent, hw.accepted⟩

theorem Sound.handle (hw : Sound hash nodeOperatorId w) {task : Task Settings D}
    {manager : Manager D} (htask : w.cluster.task = some task) (hmanager : w.manager = some manager)
    {event : Event} (h : ∀ state, event = .stateTransition state →
      Working hash nodeOperatorId task.view.migration.id w.cluster.chain.state.migration.id w.history
        state (stateFuture state)) :
    Sound hash nodeOperatorId { w with manager := manager.handle task.view event } := by
  have hlatest := hw.stored task htask
  obtain ⟨view, hview, hworking⟩ := hw.manager manager hmanager
  cases hlatest.symm.trans hview
  refine hw.setManager fun manager' hmanager' => ⟨task.view, hlatest, ?_⟩
  cases event with
  | clusterUpdate =>
    exact working_transition hworking (fun _ => working_syncState (Nat.le_refl _)) hmanager'
  | stateTransition state =>
    have hnew : ∀ state', some state = some state' →
        Working hash nodeOperatorId task.view.migration.id w.cluster.chain.state.migration.id w.history
          state' (stateFuture state') := by
      intro state' hstate
      cases hstate
      exact h state rfl
    exact working_transition hworking hnew hmanager'
  | shutdown =>
    rw [Manager.handle] at hmanager'
    split_ifs at hmanager'
    cases hmanager'
    exact hworking

theorem Sound.proceed (hw : Sound hash nodeOperatorId w) {task : Task Settings D}
    {manager : Manager D} (htask : w.cluster.task = some task) (hmanager : w.manager = some manager)
    {outcome : Outcome D} (h : Polls hash nodeOperatorId task.view manager.stateFut outcome) :
    Sound hash nodeOperatorId (w.proceed manager task.view outcome) := by
  have hlatest := hw.stored task htask
  obtain ⟨view, hview, hworking⟩ := hw.manager manager hmanager
  cases hlatest.symm.trans hview
  have hcurrent := (hw.latest _ hlatest).le_current hw.chain
  have hkeeps := working_polls hworking hcurrent h
  have hset : ∀ manager' : Manager D, Working hash nodeOperatorId task.view.migration.id
      w.cluster.chain.state.migration.id w.history manager'.state manager'.stateFut →
      Sound hash nodeOperatorId { w with manager := some manager' } := by
    intro manager' hworking'
    refine hw.setManager fun manager'' hmanager'' => ⟨task.view, hlatest, ?_⟩
    cases hmanager''
    exact hworking'
  cases outcome with
  | running future => exact hset { manager with stateFut := future } hkeeps
  | sent future migrationId =>
    have hw' := hset { manager with stateFut := future } hkeeps.1
    refine ⟨hw'.chain, hw'.latest, hw'.stored, hw'.manager, fun id hid => ?_, hw'.accepted⟩
    rcases List.mem_cons.mp hid with rfl | hid
    · exact hkeeps.2
    · exact hw.sent id hid
  | transferReturned run =>
    have hw' : Sound hash nodeOperatorId { w with history := .transferReturned run :: w.history } :=
      hw.happened (by rintro _ ⟨⟩)
    refine hw'.handle htask hmanager fun state hstate => ?_
    cases hstate
    exact hkeeps
  | returned state =>
    refine hw.handle htask hmanager fun state' hstate => ?_
    cases hstate
    exact hkeeps
  | failed => exact hset manager.retry hworking.restarted
  | panicked => exact hw.setManager (by rintro _ ⟨⟩)

theorem showsId_observed (hw : Sound hash nodeOperatorId w) {cluster : Cluster.World Settings D}
    {task : Task Settings D} (h : Cluster.World.Step cfg w.cluster cluster)
    (hchain : cluster.chain = w.cluster.chain) (htask : cluster.task = some task) :
    ShowsId w.cluster.chain task.view := by
  obtain ⟨⟨chain, clusterTask, delivered⟩, latest, manager, sent, history⟩ := w
  cases h with
  | transaction _ => exact hw.latest _ (hw.stored task htask)
  | connect hs hnew =>
    cases htask
    obtain ⟨view, hview, heq⟩ := bind_eq_ok.mp hnew
    cases heq
    exact .snapshot hs hview
  | @input _ task' _ _ _ hoffers =>
    cases htask
    exact (hw.latest _ (hw.stored task' rfl)).handle hw.chain hoffers

/-- A newer view moves nothing but the bound on the manager's id. -/
theorem Sound.observe (hw : Sound hash nodeOperatorId w) {cluster : Cluster.World Settings D}
    {task : Task Settings D} (h : Cluster.World.Step cfg w.cluster cluster)
    (hchain : cluster.chain = w.cluster.chain) (htask : cluster.task = some task)
    (hnewer : ∀ view, w.latest = some view → view.clusterVersion ≤ task.view.clusterVersion) :
    Sound hash nodeOperatorId { w with cluster := cluster, latest := some task.view } := by
  have hshows := showsId_observed hw h hchain htask
  constructor
  case chain =>
    rw [hchain]
    exact hw.chain
  case latest =>
    intro view hview
    cases hview
    rw [hchain]
    exact hshows
  case stored =>
    intro task' htask'
    cases htask.symm.trans htask'
    rfl
  case manager =>
    intro manager hmanager
    obtain ⟨view, hview, hworking⟩ := hw.manager manager hmanager
    have hgrows := (hw.latest view hview).mono hw.chain hshows (hnewer view hview)
    rw [hchain]
    exact ⟨task.view, rfl, hworking.mono hgrows (Nat.le_refl _) (List.Subset.refl _)⟩
  case sent =>
    rw [hchain]
    exact hw.sent
  case accepted => exact hw.accepted

theorem sound_step (cfg : Config Settings D) (hash : Idx → Nat → UInt64) (nodeOperatorId : Address) :
    Invariant (Step cfg hash nodeOperatorId) (Sound hash nodeOperatorId) := by
  intro w w' hw h
  cases h with
  | transaction hexec _ => exact hw.append hexec
  | accept hsent _ hexec =>
    refine (hw.append hexec).happened fun migrationId heq => ?_
    cases heq
    exact pulled_of_backed hexec (hw.sent _ hsent)
  | observe hstep hchain htask hnewer => exact hw.observe hstep hchain htask hnewer
  | @run task htask _ =>
    refine hw.setManager fun manager hmanager => ⟨task.view, hw.stored task htask, ?_⟩
    cases hmanager
    exact .idle
  | clusterUpdate htask hmanager => exact hw.handle htask hmanager (by rintro _ ⟨⟩)
  | shutdown htask hmanager => exact hw.handle htask hmanager (by rintro _ ⟨⟩)
  | poll htask hmanager hpolls => exact hw.proceed htask hmanager hpolls
  | restart =>
    constructor
    case chain => exact hw.chain
    case latest => exact hw.latest
    case stored => rintro _ ⟨⟩
    case manager => rintro _ ⟨⟩
    case sent => exact hw.sent
    case accepted => exact hw.accepted

theorem sound_initial (s : Contract.State) : Sound hash nodeOperatorId (initial (D := D) s) := by
  constructor
  case chain => exact .initial s
  case latest => rintro _ ⟨⟩
  case stored => rintro _ ⟨⟩
  case manager => rintro _ ⟨⟩
  case sent => rintro _ ⟨⟩
  case accepted =>
    intro after migrationId before h
    exact absurd h.symm (by simp [initial])

end World

/-- Whatever happens on the chain and at the node, the contract has accepted a completed pull of this
operator only after a transfer for this migration returned, with every shard the operator joins. -/
theorem reported_pulls_done (cfg : Config Settings D) (hash : Idx → Nat → UInt64)
    (nodeOperatorId : Address) {s : Contract.State} {w : World D}
    (hrun : Run (World.Step cfg hash nodeOperatorId) (World.initial s) w)
    {after before : List (Happening D)} {migrationId : Nat}
    (haccepted : w.history = after ++ .accepted migrationId :: before) :
    ∃ run, .transferReturned run ∈ before ∧ run.clusterView.migration.isInProgress = true ∧
      run.clusterView.migration.id = migrationId ∧
      ∀ key, ∃ old new, run.clusterView.primaryReplicaSet hash key = .ok old ∧
        run.clusterView.secondaryReplicaSet hash key run.now = .ok (some new) ∧
        (Joins nodeOperatorId old new →
          ∃ source, (ShardId.fromKey key, source) ∈ run.transferred) :=
  ((World.sound_step cfg hash nodeOperatorId).run hrun (World.sound_initial s)).accepted after
    migrationId before haccepted

/-- A manager that is transferring can come to an end with it, if the sources answer. -/
theorem exists_transferred (cfg : Config Settings D) (hash : Idx → Nat → UInt64)
    (nodeOperatorId : Address) {w : World D} {task : Task Settings D}
    (htask : w.cluster.task = some task) {state : State} {isShuttingDown : Bool}
    (run : TransferRun D) (hmanager : w.manager = some ⟨state, .transferring run, isShuttingDown⟩) :
    ∃ run' : TransferRun D, run'.remaining = [] ∧ run'.migrationId = run.migrationId ∧
      run'.clusterView = run.clusterView ∧ Run (World.Step cfg hash nodeOperatorId) w
        { w with manager := some ⟨state, .transferring run', isShuttingDown⟩ } := by
  induction hremaining : run.remaining generalizing run w with
  | nil =>
    refine ⟨run, hremaining, rfl, rfl, ?_⟩
    rw [← hmanager]
  | cons shard remaining ih =>
    -- a source with one node that streams nothing
    let readData : ReadData := fun _ _ => [.ok []]
    have htransfer : Run (Rpc.Step ⟨fun _ => 0, fun _ => true⟩)
        (Rpc.transferShard (readData shard.1.keyRange run.keyspaceVersion) .empty)
        ⟨.returned (.ok ()), [], true, false, .running (.start .empty)⟩ := .single (.close rfl)
    have hpolls : Polls hash nodeOperatorId task.view (.transferring run)
        (.running (.transferring (run.complete 0 shard))) :=
      .shardTransferred (by rw [hremaining, List.getElem?_cons_zero]) htransfer rfl
    have hstep : World.Step cfg hash nodeOperatorId w
        { w with manager := some ⟨state, .transferring (run.complete 0 shard), isShuttingDown⟩ } :=
      .poll htask hmanager hpolls
    have hrest : (run.complete 0 shard).remaining = remaining := by
      rw [TransferRun.complete, hremaining, List.eraseIdx_cons_zero]
    obtain ⟨run', hdone, hid, hsame, hrun⟩ := ih
      (w := { w with manager := some ⟨state, .transferring (run.complete 0 shard), isShuttingDown⟩ })
      htask (run.complete 0 shard) rfl hrest
    exact ⟨run', hdone, hid, hsame, .head hstep hrun⟩

/-- A node that connects after a migration started can carry its operator through it. -/
theorem exists_reported {cfg : Config Settings D} {hash : Idx → Nat → UInt64}
    {nodeOperatorId : Address} {env env' : Env} {call : Call} {s s' s'' : Contract.State}
    {event event' : Contract.Event} {view : View Settings D} {migrationId : Nat}
    {startAt now now' : OffsetDateTime} {run : TransferRun D}
    (hexec : Contract.exec env call s = .ok (s', event))
    (hcall : ∀ migrationId, call = .completeMigration migrationId → env.sender ≠ nodeOperatorId)
    (hview : snapshot cfg s' = .ok view) (hongoing : view.ongoingMigrationId = some migrationId)
    (hscheduled : view.dataPullScheduledAfter = .ok (some startAt))
    (hstart : TransferRun.start hash nodeOperatorId migrationId view now now' = .ok (some run))
    (hcheck : view.checkCompleteMigration nodeOperatorId migrationId = .ok ())
    (hsender : env'.sender = nodeOperatorId)
    (haccept : Contract.exec env' (.completeMigration migrationId) s' = .ok (s'', event')) :
    ∃ (w : World D) (run' : TransferRun D),
      Run (World.Step cfg hash nodeOperatorId) (World.initial s) w ∧
        w.history = [.accepted migrationId, .transferReturned run'] ∧ run'.clusterView = view := by
  let chain := Chain.append ⟨s, [], []⟩ env s' event
  let node (manager : Option (Manager D)) (sent : List Nat) (history : List (Happening D)) : World D :=
    ⟨⟨chain, some ⟨view, .streaming⟩, []⟩, some view, manager, sent, history⟩
  have hconnected : Run (World.Step cfg hash nodeOperatorId) (World.initial s) (node none [] []) := by
    have hnew : Task.new cfg (.tryFrom (Contract.getView s')) = .ok ⟨view, .streaming⟩ :=
      bind_eq_ok.mpr ⟨view, hview, rfl⟩
    have hconnect : Cluster.World.Step cfg ⟨chain, none, []⟩ ⟨chain, some ⟨view, .streaming⟩, []⟩ :=
      .connect List.mem_cons_self hnew
    refine .tail (.single (.transaction hexec hcall)) ?_
    exact .observe (w := ⟨⟨chain, none, []⟩, none, none, [], []⟩) hconnect rfl rfl (by rintro _ ⟨⟩)
  have hstep : ∀ {manager sent history} {outcome : Outcome D},
      Polls hash nodeOperatorId view manager.stateFut outcome →
      World.Step cfg hash nodeOperatorId (node (some manager) sent history)
        ((node (some manager) sent history).proceed manager view outcome) :=
    fun {manager sent history _} hpolls => .poll (w := node (some manager) sent history) rfl rfl hpolls
  have hupdated : World.Step cfg hash nodeOperatorId (node (some .new) [] [])
      (node (some ⟨.transferringData migrationId, .transferData migrationId, false⟩) [] []) := by
    have hupdate : (Manager.new (D := D)).handle view .clusterUpdate =
        some ⟨.transferringData migrationId, .transferData migrationId, false⟩ := by
      rw [Manager.handle, syncState, hongoing]
      rfl
    rw [← hupdate]
    exact .clusterUpdate (w := node (some .new) [] []) rfl rfl
  have hrunning := hconnected.tail (.run (w := node none [] []) rfl rfl)
  have htransferring := ((hrunning.tail hupdated).tail (hstep (.scheduled hscheduled))).tail
    (hstep (.started hstart))
  obtain ⟨run', hdone, hid, hsame, htransferred⟩ := exists_transferred cfg hash nodeOperatorId
    (w := node (some ⟨.transferringData migrationId, .transferring run, false⟩) [] []) rfl run rfl
  obtain ⟨hmigration, hfrom, _⟩ := TransferRun.start_covers hstart
  rw [hmigration] at hid
  rw [← hid] at hcheck haccept ⊢
  have hreturned := (htransferring.trans htransferred).tail (hstep (.transferred hdone))
  have hsent := hreturned.tail (hstep (.submits hcheck))
  exact ⟨_, run', hsent.tail (.accept List.mem_cons_self hsender haccept), rfl, hsame.trans hfrom⟩

/-- The first of the six operators pulls the shards that it joins by the first migration, and reports
it. One of them is that of key 0. -/
theorem reported_pulls_done_first :
    ∃ (w : World Unit) (before : List (Happening Unit)),
      Run (World.Step usualSettings preferLater 1) (World.initial sixOperators) w ∧
      w.history = .accepted 1 :: before ∧
      ∃ run source, .transferReturned run ∈ before ∧ run.clusterView.migration.id = 1 ∧
        (ShardId.fromKey 0, source) ∈ run.transferred := by
  obtain ⟨view, hview, hsettings, hprogress, hstarted, hversion⟩ := snapshot_migrating
  have hobserved : (snapshot usualSettings migrating).toOption.map (fun view =>
      (view.ongoingMigrationId, (view.checkCompleteMigration 1 1).toOption,
        view.dataPullScheduledAfter.toOption.join.isSome)) = some (some 1, some (), true) := by
    decide +kernel
  obtain ⟨view', hview', hfacts⟩ := Option.map_eq_some_iff.mp hobserved
  rw [toOption_eq_some] at hview'
  cases hview.symm.trans hview'
  simp only [Prod.mk.injEq] at hfacts
  obtain ⟨hongoing, hcheck, hscheduled⟩ := hfacts
  obtain ⟨startAt, hstartAt⟩ := Option.isSome_iff_exists.mp hscheduled
  rw [Option.join_eq_some_iff, toOption_eq_some] at hstartAt
  rw [toOption_eq_some] at hcheck
  obtain ⟨run, hstart⟩ := TransferRun.exists_start (routable_migrating hview) preferLater 1 1
    (instant 16000) (shadowing_migrating hsettings hprogress hstarted)
  obtain ⟨w, run', hrun, hhistory, hread⟩ := exists_reported
    (Contract.exec_after (transaction 99 11) (.startMigration ⟨fill 5, 0⟩) sixOperators
      (by decide +kernel)) (by rintro _ ⟨⟩) hview hongoing hstartAt hstart hcheck rfl
    (Contract.exec_after (transaction 0 20) (.completeMigration 1) migrating (by decide +kernel))
  obtain ⟨returned, hreturned, _, hid, hpulled⟩ := reported_pulls_done usualSettings preferLater 1
    hrun (show w.history = [] ++ .accepted 1 :: [.transferReturned run'] from hhistory)
  cases List.mem_singleton.mp hreturned
  obtain ⟨old, new, hold, hnew, hjoined⟩ := hpulled 0
  rw [hread] at hold hnew
  obtain ⟨⟨old', hold', hold_ids⟩, hnew_ids⟩ := replicas_migrating hview
  cases hold.symm.trans hold'
  obtain ⟨source, hsource⟩ := hjoined ⟨by rw [hnew_ids _ _ hnew]; decide, by rw [hold_ids]; decide⟩
  exact ⟨w, _, hrun, hhistory, run', source, hreturned, hid, hsource⟩

end Migration
end Wcn
