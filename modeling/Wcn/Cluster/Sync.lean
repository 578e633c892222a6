import Wcn.Lib.EventLog
import Wcn.Cluster.Replay

/-!
# Wcn.Cluster.Sync

The task that keeps a node's view up to date, next to the chain it reads.

* `Task` — the stored view and where the task is in its loop. `handle` is what it does with what it
  awaited: a subscription, a snapshot, a log of the stream, a poll of the invalidation, a failure.
* `World` — the chain, with all its states and logs, and the task once it runs. A snapshot may show
  any past state. A stream may deliver any emitted log, so gaps, duplicates and stale logs are
  included, and it does not matter when it was opened.
* `Explains` — the invariant: the stored view is a snapshot followed by the events after it.
* `stored_view_replays` — no event is skipped or applied twice.
* `stored_owner_eq` — the owner is the one of that snapshot, which no event changes.
-/

namespace Wcn
namespace Cluster

open Lib
open Contract (Address Env Call Transition transaction sixOperators after)

variable {S D : Type}

/-! ## The chain -/

structure Log where
  blockTimestamp : Nat
  event : Contract.Event

/-- What the stream makes of a log; it drops those that are no cluster events. -/
def Log.decode (log : Log) : Option SmartContract.Event :=
  SmartContract.Event.tryFrom log.blockTimestamp log.event

/-- The state of the contract, the states before it and the logs of all transactions. The logs of
the deployment are left out: the stream drops them. -/
structure Chain where
  state : Contract.State
  older : List Contract.State
  logs : List Log

namespace Chain

def states (chain : Chain) : List Contract.State := chain.state :: chain.older

def events (chain : Chain) : List SmartContract.Event := chain.logs.filterMap Log.decode

/-- The events after version `s`, up to version `v`. -/
def eventsBetween (chain : Chain) (s v : Nat) : List SmartContract.Event :=
  between SmartContract.Event.clusterVersion s v chain.events

def append (chain : Chain) (env : Env) (s : Contract.State) (event : Contract.Event) : Chain :=
  ⟨s, chain.states, chain.logs ++ [⟨env.timestamp, event⟩]⟩

end Chain

/-! ## The task -/

inductive Phase where
  | subscribing
  | fetching
  | streaming
deriving DecidableEq

structure Task (S D : Type) where
  view : View S D
  phase : Phase

/-- What the task awaited. -/
inductive Input where
  | subscribed
  | fetched (view : SmartContract.ClusterView)
  | received (log : Log)
  | polled (view : SmartContract.ClusterView)
  /-- A read failed, or the stream ended or failed. -/
  | failed

def Input.log? : Input → Option Log
  | .received log => some log
  | _ => none

namespace Task

/-- `Cluster::new`, after it subscribed to events. -/
def new (cfg : Config S D) (fetched : SmartContract.ClusterView) :
    Except View.TryFromSmartContractError (Task S D) := do
  let view ← View.tryFromSc cfg fetched
  .ok ⟨view, .streaming⟩

def updateView (cfg : Config S D) (task : Task S D) (fetched : SmartContract.ClusterView) :
    Task S D :=
  if task.view.clusterVersion ≠ fetched.clusterVersion then
    match View.tryFromSc cfg fetched with
    | .ok view => ⟨view, .streaming⟩
    | .error _ => { task with phase := .subscribing }
  else
    { task with phase := .streaming }

def applyEvents (cfg : Config S D) (task : Task S D) (log : Log) : Task S D :=
  match log.decode with
  | none => task
  | some event =>
    match task.view.applyEvent cfg event with
    | .ok view => { task with view := view }
    | .error _ => { task with phase := .subscribing }

def invalidationEvent (task : Task S D) (fetched : SmartContract.ClusterView) : Task S D :=
  if task.view.clusterVersion ≠ fetched.clusterVersion then { task with phase := .subscribing }
  else task

def awaits (task : Task S D) : Input → Bool
  | .subscribed => task.phase == .subscribing
  | .fetched _ => task.phase == .fetching
  | .received _ => task.phase == .streaming
  | .polled _ => task.phase == .streaming
  | .failed => true

def handle (cfg : Config S D) (task : Task S D) : Input → Task S D
  | .subscribed => { task with phase := .fetching }
  | .fetched view => task.updateView cfg view
  | .received log => task.applyEvents cfg log
  | .polled view => task.invalidationEvent view
  | .failed => { task with phase := .subscribing }

end Task

/-! ## Interleavings -/

/-- The chain, the task once the node is connected, and the logs it received. -/
structure World (S D : Type) where
  chain : Chain
  task : Option (Task S D)
  delivered : List Log

/-- What the chain may give to a task. -/
def Chain.Offers (chain : Chain) : Input → Prop
  | .fetched view | .polled view => ∃ s ∈ chain.states, view = .tryFrom (Contract.getView s)
  | .received log => log ∈ chain.logs
  | _ => True

namespace World

inductive Step (cfg : Config S D) : World S D → World S D → Prop where
  | transaction {w : World S D} {env : Env} {call : Call} {s : Contract.State}
      {event : Contract.Event} : Contract.exec env call w.chain.state = .ok (s, event) →
      Step cfg w { w with chain := w.chain.append env s event }
  | connect {chain : Chain} {s : Contract.State} {task : Task S D} : s ∈ chain.states →
      Task.new cfg (.tryFrom (Contract.getView s)) = .ok task →
      Step cfg ⟨chain, none, []⟩ ⟨chain, some task, []⟩
  | input {chain : Chain} {task : Task S D} {delivered : List Log} {input : Input} :
      task.awaits input = true → chain.Offers input →
      Step cfg ⟨chain, some task, delivered⟩
        ⟨chain, some (task.handle cfg input), delivered ++ input.log?.toList⟩

def Initial (w : World S D) : Prop :=
  ∃ env settings operators s, Contract.initializeCluster env settings operators = .ok s ∧
    w = ⟨⟨s, [], []⟩, none, []⟩

def Reachable (cfg : Config S D) (w : World S D) : Prop :=
  ∃ w₀, Initial w₀ ∧ Run (Step cfg) w₀ w

end World

/-! ## Versions -/

section Chain

variable {env : Env} {call : Call} {s s' : Contract.State} {event : Contract.Event} {chain : Chain}

/-- All of a state that events are about. -/
def withoutOwner (s : Contract.State) : Contract.State := { s with owner := 0, pendingOwner := 0 }

theorem withoutOwner_of_tryFrom_eq_none (h : Transition env s call s' event)
    (he : SmartContract.Event.tryFrom env.timestamp event = none) :
    withoutOwner s' = withoutOwner s := by
  cases h with
  | transferOwnership _ => rfl
  | acceptOwnership _ => rfl
  | renounceOwnership _ => rfl
  | _ => cases he

theorem version_of_tryFrom_eq_none (h : Transition env s call s' event)
    (he : SmartContract.Event.tryFrom env.timestamp event = none) : s'.version = s.version := by
  have hsame := congrArg Contract.State.version (withoutOwner_of_tryFrom_eq_none h he)
  exact hsame

/-- The deployment is version 1, and every event is one version. -/
structure Chain.Ordered (chain : Chain) : Prop where
  numbered : Numbered SmartContract.Event.clusterVersion 2 chain.events
  version : chain.state.version = 1 + chain.events.length
  states : ∀ s ∈ chain.states, 1 ≤ s.version ∧ s.version ≤ chain.state.version

theorem Chain.Ordered.initial {settings : Contract.Settings}
    {operators : List Contract.NodeOperator}
    (h : Contract.initializeCluster env settings operators = .ok s) :
    Chain.Ordered ⟨s, [], []⟩ := by
  obtain ⟨_, _, _, _, _, heq⟩ := Contract.initializeCluster_ok h
  have hversion : s.version = 1 := by rw [heq]
  refine ⟨rfl, hversion, fun s' hs' => ?_⟩
  rw [List.mem_singleton.mp hs', hversion]
  exact ⟨Nat.le_refl _, Nat.le_refl _⟩

/-- Every log was emitted between two states of the chain. -/
def Chain.Logged (chain : Chain) : Prop :=
  ∀ log ∈ chain.logs, ∃ (env : Env) (call : Call), ∃ s ∈ chain.states, ∃ s' ∈ chain.states,
    env.timestamp = log.blockTimestamp ∧ Transition env s call s' log.event

theorem Chain.Logged.append (hc : chain.Logged) (h : Transition env chain.state call s event) :
    (chain.append env s event).Logged := by
  intro log hlog
  rcases List.mem_append.mp hlog with hlog | hlog
  · obtain ⟨env', call', s₀, hs₀, s₁, hs₁, h'⟩ := hc log hlog
    exact ⟨env', call', s₀, List.mem_cons_of_mem _ hs₀, s₁, List.mem_cons_of_mem _ hs₁, h'⟩
  · rw [List.mem_singleton.mp hlog]
    exact ⟨env, call, _, List.mem_cons_of_mem _ List.mem_cons_self, s, List.mem_cons_self, rfl, h⟩

theorem Chain.events_append :
    (chain.append env s event).events =
      chain.events ++ (SmartContract.Event.tryFrom env.timestamp event).toList := by
  rw [Chain.events, Chain.append, List.filterMap_append]
  rfl

theorem Chain.Ordered.append (hc : chain.Ordered)
    (h : Contract.exec env call chain.state = .ok (s, event)) :
    (chain.append env s event).Ordered := by
  rw [Contract.exec_iff] at h
  have hstates : ∀ {s₀}, chain.state.version ≤ s.version → s₀ ∈ (chain.append env s event).states →
      1 ≤ s₀.version ∧ s₀.version ≤ s.version := by
    intro s₀ hle hs₀
    have hcurrent := hc.states _ List.mem_cons_self
    rcases List.mem_cons.mp hs₀ with rfl | hs₀
    · exact ⟨hcurrent.1.trans hle, Nat.le_refl _⟩
    · have hbounds := hc.states s₀ hs₀
      exact ⟨hbounds.1, hbounds.2.trans hle⟩
  have hversion := hc.version
  cases he : SmartContract.Event.tryFrom env.timestamp event with
  | none =>
    have hsame := version_of_tryFrom_eq_none h he
    refine ⟨?_, ?_, fun _ => hstates hsame.ge⟩
    · rw [Chain.events_append, he, Option.toList_none, List.append_nil]
      exact hc.numbered
    · rw [Chain.events_append, he, Option.toList_none, List.append_nil, ← hversion]
      exact hsame
  | some e =>
    obtain ⟨hnumber, hnext⟩ := clusterVersion_tryFrom h he
    refine ⟨?_, ?_, fun _ => hstates (by omega)⟩
    · rw [Chain.events_append, he]
      exact hc.numbered.append (by omega)
    · rw [Chain.events_append, he, List.length_append]
      simp only [Chain.append, Option.toList_some, List.length_singleton]
      omega

end Chain

/-! ## Stored views -/

/-- The view is a snapshot of some state, followed by the events after it. -/
def Explains (cfg : Config S D) (chain : Chain) (view : View S D) : Prop :=
  view.clusterVersion ≤ chain.state.version ∧
    ∃ s ∈ chain.states, ∃ view₀, snapshot cfg s = .ok view₀ ∧
      Derived (View.applyEvent cfg) View.clusterVersion SmartContract.Event.clusterVersion
        chain.events view₀ view

section Views

variable {cfg : Config S D} {view view' : View S D} {event : SmartContract.Event}

theorem sequenced_applyEvent (cfg : Config S D) :
    Sequenced (View.applyEvent cfg) View.clusterVersion SmartContract.Event.clusterVersion := by
  intro view event view' h
  obtain ⟨hnext, changed, _, rfl⟩ := View.applyEvent_eq_ok.mp h
  exact ⟨hnext, rfl⟩

theorem owner_applyEvent (h : view.applyEvent cfg event = .ok view') : view'.owner = view.owner := by
  obtain ⟨_, changed, hchange, rfl⟩ := View.applyEvent_eq_ok.mp h
  have howner := (View.frame_change hchange).1
  exact howner

/-- The owner and the version of a view are read off the contract. -/
theorem snapshot_ok {s : Contract.State} (h : snapshot cfg s = .ok view) :
    view.owner = s.owner ∧ view.clusterVersion = s.version := by
  obtain ⟨_, hbuilt⟩ := View.tryFromSc_eq_ok.mp h
  exact ⟨hbuilt.owner, hbuilt.clusterVersion⟩

end Views

section Explains

variable {cfg : Config S D} {chain : Chain} {view view' : View S D}

theorem Explains.snapshot (hc : chain.Ordered) {s : Contract.State} (hs : s ∈ chain.states)
    (h : snapshot cfg s = .ok view) : Explains cfg chain view := by
  refine ⟨?_, s, hs, view, h, .self⟩
  rw [(snapshot_ok h).2]
  exact (hc.states s hs).2

theorem Explains.next (hc : chain.Ordered) (hv : Explains cfg chain view) {log : Log}
    (hlog : log ∈ chain.logs) {e : SmartContract.Event} (he : log.decode = some e)
    (h : view.applyEvent cfg e = .ok view') : Explains cfg chain view' := by
  obtain ⟨_, s, hs, view₀, hsnapshot, hderived⟩ := hv
  have hmem : e ∈ chain.events := List.mem_filterMap.mpr ⟨log, hlog, he⟩
  refine ⟨?_, s, hs, view₀, hsnapshot, hderived.next (sequenced_applyEvent cfg) hc.numbered hmem h⟩
  have hbounds := hc.numbered.bounds hmem
  rw [((sequenced_applyEvent cfg) h).2, hc.version]
  omega

theorem Explains.append (hv : Explains cfg chain view) {env : Env} {call : Call}
    {s : Contract.State} {event : Contract.Event}
    (h : Contract.exec env call chain.state = .ok (s, event)) :
    Explains cfg (chain.append env s event) view := by
  obtain ⟨hle, s₀, hs₀, view₀, hsnapshot, hderived⟩ := hv
  rw [Contract.exec_iff] at h
  have hmem : s₀ ∈ (chain.append env s event).states := List.mem_cons_of_mem _ hs₀
  rw [Explains, Chain.events_append]
  cases he : SmartContract.Event.tryFrom env.timestamp event with
  | none =>
    refine ⟨?_, s₀, hmem, view₀, hsnapshot, ?_⟩
    · exact hle.trans (version_of_tryFrom_eq_none h he).ge
    · rw [Option.toList_none, List.append_nil]
      exact hderived
  | some e =>
    obtain ⟨hnumber, hnext⟩ := clusterVersion_tryFrom h he
    refine ⟨?_, s₀, hmem, view₀, hsnapshot, hderived.append ?_⟩
    · exact (hle.trans (Nat.le_succ _)).trans hnext.ge
    · rw [hnumber]
      omega

/-- Whatever the task awaited, the view it stores then is the one before, a snapshot or an event's. -/
theorem Task.handle_view (cfg : Config S D) (task : Task S D) {input : Input}
    (hinput : chain.Offers input) :
    (task.handle cfg input).view = task.view ∨
      (∃ s ∈ chain.states, Cluster.snapshot cfg s = .ok (task.handle cfg input).view) ∨
      ∃ log ∈ chain.logs, ∃ e, log.decode = some e ∧
        task.view.applyEvent cfg e = .ok (task.handle cfg input).view := by
  cases input with
  | subscribed => exact .inl rfl
  | failed => exact .inl rfl
  | fetched fetched =>
    obtain ⟨s, hs, rfl⟩ := hinput
    rw [Task.handle, Task.updateView]
    split
    · cases h : View.tryFromSc cfg (.tryFrom (Contract.getView s)) with
      | ok view => exact .inr (.inl ⟨s, hs, h⟩)
      | error _ => exact .inl rfl
    · exact .inl rfl
  | polled fetched =>
    rw [Task.handle, Task.invalidationEvent]
    split <;> exact .inl rfl
  | received log =>
    rw [Task.handle, Task.applyEvents]
    cases he : log.decode with
    | none => exact .inl rfl
    | some e =>
      cases h : task.view.applyEvent cfg e with
      | ok view => exact .inr (.inr ⟨log, hinput, e, he, by simp only [h]⟩)
      | error _ => exact .inl (by simp only [h])

theorem Explains.handle (hc : chain.Ordered) {task : Task S D} (ht : Explains cfg chain task.view)
    {input : Input} (hinput : chain.Offers input) : Explains cfg chain (task.handle cfg input).view := by
  rcases Task.handle_view cfg task hinput with h | ⟨s, hs, h⟩ | ⟨log, hlog, e, he, h⟩
  · rw [h]
    exact ht
  · exact .snapshot hc hs h
  · exact ht.next hc hlog he h

end Explains

namespace World

variable {cfg : Config S D} {w : World S D}

structure Synced (cfg : Config S D) (w : World S D) : Prop where
  ordered : w.chain.Ordered
  stored : ∀ task, w.task = some task → Explains cfg w.chain task.view

theorem synced_step (cfg : Config S D) : Invariant (Step cfg) (Synced cfg) := by
  intro w w' hw h
  cases h with
  | transaction h =>
    exact ⟨hw.ordered.append h, fun task ht => (hw.stored task ht).append h⟩
  | @connect chain s task hs h =>
    refine ⟨hw.ordered, fun task' ht => ?_⟩
    obtain ⟨view, hview, htask⟩ := bind_eq_ok.mp h
    cases ht
    cases htask
    exact .snapshot hw.ordered hs hview
  | input _ hoffers =>
    refine ⟨hw.ordered, fun task' ht => ?_⟩
    cases ht
    exact (hw.stored _ rfl).handle hw.ordered hoffers

theorem Reachable.synced (h : Reachable cfg w) : Synced cfg w := by
  obtain ⟨w₀, ⟨env, settings, operators, s, hinit, rfl⟩, hrun⟩ := h
  exact (synced_step cfg).run hrun ⟨.initial hinit, fun _ h => by cases h⟩

theorem Reachable.transact (h : Reachable cfg w) {env : Env} {call : Call} {s : Contract.State}
    {event : Contract.Event} (hcall : Transition env w.chain.state call s event) :
    Reachable cfg { w with chain := w.chain.append env s event } := by
  obtain ⟨w₀, hinit, hrun⟩ := h
  exact ⟨w₀, hinit, hrun.tail (.transaction (Contract.exec_iff.mpr hcall))⟩

theorem Reachable.receive {chain : Chain} {view : View S D} {delivered : List Log}
    (h : Reachable cfg ⟨chain, some ⟨view, .streaming⟩, delivered⟩) {log : Log}
    (hlog : log ∈ chain.logs) :
    Reachable cfg ⟨chain, some (Task.applyEvents cfg ⟨view, .streaming⟩ log), delivered ++ [log]⟩ := by
  obtain ⟨w₀, hinit, hrun⟩ := h
  have hoffers : chain.Offers (.received log) := hlog
  exact ⟨w₀, hinit, hrun.tail (.input rfl hoffers)⟩

/-! ## Results -/

theorem exists_new_sixOperators :
    ∃ view, snapshot acceptAll sixOperators = .ok view ∧
      Task.new acceptAll (.tryFrom (Contract.getView sixOperators)) = .ok ⟨view, .streaming⟩ := by
  have hsnapshot : (snapshot acceptAll sixOperators).toOption.isSome = true := by decide +kernel
  obtain ⟨view, hview⟩ := Option.isSome_iff_exists.mp hsnapshot
  rw [toOption_eq_some] at hview
  exact ⟨view, hview, bind_eq_ok.mpr ⟨view, hview, rfl⟩⟩

/-- A node of the six operators' cluster, right after it connected. -/
theorem reachable_connected :
    ∃ view, Reachable acceptAll ⟨⟨sixOperators, [], []⟩, some ⟨view, .streaming⟩, []⟩ ∧
      snapshot acceptAll sixOperators = .ok view := by
  obtain ⟨view, hview, hnew⟩ := exists_new_sixOperators
  have hinit : Initial (S := Unit) (D := Unit) ⟨⟨sixOperators, [], []⟩, none, []⟩ :=
    ⟨_, _, _, _, eq_ok_result (by decide +kernel) _, rfl⟩
  exact ⟨view, ⟨_, hinit, .single (.connect List.mem_cons_self hnew)⟩, hview⟩

/-- An operator started maintenance, and the node received the event. -/
theorem reachable_maintained :
    ∃ w task, Reachable acceptAll w ∧ w.task = some task ∧ task.view.clusterVersion = 2 := by
  obtain ⟨view, hreach, hview⟩ := reachable_connected
  have hcall : Transition (transaction 0 11) sixOperators (.setMaintenance true) _ _ :=
    .startMaintenance (by decide +kernel) (.inr (by decide +kernel)) (by decide +kernel)
  have hreplay : ((snapshot acceptAll sixOperators).toOption.bind fun view =>
      (view.applyEvent acceptAll (.maintenanceStarted 1 2)).toOption).isSome = true := by
    decide +kernel
  rw [hview] at hreplay
  obtain ⟨view', hview'⟩ := Option.isSome_iff_exists.mp hreplay
  have haccept : view.applyEvent acceptAll (.maintenanceStarted 1 2) = .ok view' :=
    toOption_eq_some.mp hview'
  have hdecode : Log.decode ⟨11, .maintenanceToggled (transaction 0 11).sender true
      (sixOperators.version + 1)⟩ = some (.maintenanceStarted 1 2) := by
    decide +kernel
  have happlied : Task.applyEvents acceptAll ⟨view, .streaming⟩
      ⟨11, .maintenanceToggled (transaction 0 11).sender true (sixOperators.version + 1)⟩ =
        ⟨view', .streaming⟩ := by
    simp only [Task.applyEvents, hdecode, haccept]
  have hreceived := (hreach.transact hcall).receive List.mem_cons_self
  refine ⟨_, _, hreceived, rfl, ?_⟩
  exact (congrArg (·.view.clusterVersion) happlied).trans (sequenced_applyEvent acceptAll haccept).2

/-- Every stored view is a snapshot followed by the events after it, each once and in order. Every
call that emits an event raises the version by one. -/
theorem stored_view_replays (cfg : Config S D) {w : World S D} (h : Reachable cfg w) :
    (∀ task, w.task = some task → ∃ s ∈ w.chain.states, ∃ view, snapshot cfg s = .ok view ∧
      s.version ≤ task.view.clusterVersion ∧
      (w.chain.eventsBetween s.version task.view.clusterVersion).foldlM (View.applyEvent cfg) view =
        .ok task.view ∧
      (w.chain.eventsBetween s.version task.view.clusterVersion).map
          SmartContract.Event.clusterVersion =
        List.range' (s.version + 1) (task.view.clusterVersion - s.version)) ∧
    ∀ env call s event e, Contract.exec env call w.chain.state = .ok (s, event) →
      SmartContract.Event.tryFrom env.timestamp event = some e →
      e.clusterVersion = w.chain.state.version + 1 ∧ s.version = w.chain.state.version + 1 := by
  have hsynced := h.synced
  constructor
  · intro task ht
    obtain ⟨hle, s, hs, view, hview, hderived⟩ := hsynced.stored task ht
    have hversion := (snapshot_ok hview).2
    have hstates := hsynced.ordered.states s hs
    have hlast := hsynced.ordered.version
    refine ⟨s, hs, view, hview, hversion ▸ hderived.le, hversion ▸ hderived.replays, ?_⟩
    exact map_between hsynced.ordered.numbered (by omega) (by omega)
  · intro env call s event e hexec he
    exact clusterVersion_tryFrom (Contract.exec_iff.mp hexec) he

theorem stored_view_replays_maintained :
    ∃ w task, Reachable acceptAll w ∧ w.task = some task ∧ task.view.clusterVersion = 2 ∧
      ∃ s ∈ w.chain.states, ∃ view, snapshot acceptAll s = .ok view ∧
        (w.chain.eventsBetween s.version 2).foldlM (View.applyEvent acceptAll) view = .ok task.view := by
  obtain ⟨w, task, hreach, ht, hversion⟩ := reachable_maintained
  obtain ⟨s, hs, view, hview, _, hreplays, _⟩ := (stored_view_replays acceptAll hreach).1 task ht
  exact ⟨w, task, hreach, ht, hversion, s, hs, view, hview, hversion ▸ hreplays⟩

/-- The owner of a stored view is that of the state its snapshot was taken from. It is the owner of
the contract when that has not changed since. -/
theorem stored_owner_eq (cfg : Config S D) {w : World S D} (h : Reachable cfg w) {task : Task S D}
    (ht : w.task = some task) :
    ∃ newer s older view, w.chain.states = newer ++ s :: older ∧ snapshot cfg s = .ok view ∧
      (w.chain.eventsBetween s.version task.view.clusterVersion).foldlM (View.applyEvent cfg) view =
        .ok task.view ∧
      task.view.owner = s.owner ∧
      ((∀ s' ∈ newer, s'.owner = s.owner) → task.view.owner = w.chain.state.owner) := by
  obtain ⟨_, s, hs, view, hview, hderived⟩ := h.synced.stored task ht
  obtain ⟨howner, hversion⟩ := snapshot_ok hview
  have hsame : task.view.owner = s.owner := (hderived.unchanged owner_applyEvent).trans howner
  obtain ⟨newer, older, hstates⟩ := List.append_of_mem hs
  refine ⟨newer, s, older, view, hstates, hview, hversion ▸ hderived.replays, hsame, fun hnewer => ?_⟩
  cases newer with
  | nil =>
    have hcurrent : w.chain.state = s := (List.cons.inj hstates).1
    rw [hsame, hcurrent]
  | cons s' newer =>
    have hcurrent : w.chain.state = s' := (List.cons.inj hstates).1
    rw [hsame, hcurrent, hnewer s' List.mem_cons_self]

theorem stored_owner_eq_maintained :
    ∃ w task, Reachable acceptAll w ∧ w.task = some task ∧ task.view.clusterVersion = 2 ∧
      ∃ s ∈ w.chain.states, task.view.owner = s.owner := by
  obtain ⟨w, task, hreach, ht, hversion⟩ := reachable_maintained
  obtain ⟨newer, s, older, _, hstates, _, _, howner, _⟩ := stored_owner_eq acceptAll hreach ht
  refine ⟨w, task, hreach, ht, hversion, s, ?_, howner⟩
  rw [hstates]
  exact List.mem_append_right _ List.mem_cons_self

/-- The owner is transferred and every log of it is delivered: the versions agree, the owners do
not. -/
theorem stale_owner :
    ∃ w task, Reachable acceptAll w ∧ w.task = some task ∧ w.delivered = w.chain.logs ∧
      task.view.clusterVersion = w.chain.state.version ∧ task.view.owner ≠ w.chain.state.owner := by
  obtain ⟨view, hreach, hview⟩ := reachable_connected
  obtain ⟨howner, hversion⟩ := snapshot_ok hview
  have htransfer : Transition (transaction 99 11) sixOperators (.transferOwnership 1) _ _ :=
    .transferOwnership (by decide +kernel)
  have haccept : Transition (transaction 0 12) { sixOperators with pendingOwner := 1 }
      .acceptOwnership _ _ := .acceptOwnership (by decide +kernel)
  have htransferred := (hreach.transact htransfer).transact haccept
  -- the stream drops both logs, so the task stays as it is
  have hreceived := htransferred.receive List.mem_cons_self
  have hall := hreceived.receive (List.mem_cons_of_mem _ List.mem_cons_self)
  refine ⟨_, _, hall, rfl, rfl, hversion, ?_⟩
  have hne : sixOperators.owner ≠ (transaction 0 12).sender := by decide +kernel
  exact fun heq => hne (howner.symm.trans heq)

end World

end Cluster
end Wcn
