import Wcn.Cluster.Sync

/-!
# Wcn.Cluster.Stored

What holds of every view a node can come to store.

* `Reached` — a snapshot with some events applied. What the view checks itself holds of these:
  `Raised`, a migration in progress has raised the keyspace version, and `Sized`, keyspaces have
  enough operators.
* `Chain.Linked` — how the states and the logs of a chain belong together.
* `Stored`, `World.stores_run` — the node next to the chain: its view tracks a state of the contract,
  in every interleaving.
-/

namespace Wcn
namespace Cluster

open Lib
open Contract (Env Call Transition)
open Contract.Bitmask (Idx)

variable {S D : Type}

/-! ## What a view checks -/

namespace View

section Reached

variable {cfg : Config S D} {view view' : View S D} {event : SmartContract.Event}

/-- What the events of the chain can make of a snapshot. -/
inductive Reached (cfg : Config S D) : View S D → Prop where
  | fetched {fetched : SmartContract.ClusterView} {view : View S D} :
      View.tryFromSc cfg fetched = .ok view → Reached cfg view
  | applied {view view' : View S D} {event : SmartContract.Event} :
      Reached cfg view → view.applyEvent cfg event = .ok view' → Reached cfg view'

/-- What an event can do to the keyspaces and their version. -/
inductive Migrates (view view' : View S D) : Prop where
  | kept : view'.keyspace = view.keyspace → view'.keyspaceVersion = view.keyspaceVersion →
      view'.migration.keyspace = view.migration.keyspace → Migrates view view'
  | started (newKeyspace : Keyspace) : 5 ≤ newKeyspace.operators.card →
      view'.keyspace = view.keyspace → view'.keyspaceVersion = view.keyspaceVersion + 1 →
      view'.migration.keyspace = some newKeyspace → Migrates view view'
  | completed (newKeyspace : Keyspace) : view.migration.keyspace = some newKeyspace →
      view'.keyspace = newKeyspace → view'.keyspaceVersion = view.keyspaceVersion →
      view'.migration.keyspace = none → Migrates view view'
  | aborted : view'.keyspace = view.keyspace → view'.keyspaceVersion = view.keyspaceVersion - 1 →
      view'.migration.keyspace = none → Migrates view view'

theorem keyspace_completePull (migration : Migration) (idx : Idx) :
    (migration.completePull idx).keyspace = migration.keyspace := by
  unfold Migration.completePull
  cases hstate : migration.state with
  | started keyspace pulling => simp [Migration.keyspace, hstate]
  | aborted time => rfl
  | completed => rfl

theorem migrates_change (h : view.change cfg event = .ok view') : Migrates view view' := by
  cases event with
  | migrationStarted =>
    obtain ⟨_, _, _, hcount, _, _, _, rfl⟩ := migrationStarted_eq_ok.mp h
    exact .started _ hcount rfl rfl rfl
  | migrationDataPullCompleted =>
    obtain ⟨idx, _, _, _, _, rfl⟩ := migrationDataPullCompleted_eq_ok.mp h
    exact .kept rfl rfl (keyspace_completePull view.migration idx)
  | migrationCompleted =>
    obtain ⟨_, newKeyspace, _, hold, _, _, _, rfl⟩ := migrationCompleted_eq_ok.mp h
    exact .completed newKeyspace hold rfl rfl rfl
  | migrationAborted =>
    obtain ⟨_, _, _, rfl⟩ := migrationAborted_eq_ok.mp h
    exact .aborted rfl rfl rfl
  | maintenanceStarted =>
    obtain ⟨_, _, rfl⟩ := maintenanceStarted_eq_ok.mp h
    exact .kept rfl rfl rfl
  | maintenanceFinished =>
    obtain ⟨_, rfl⟩ := maintenanceFinished_eq_ok.mp h
    exact .kept rfl rfl rfl
  | nodeOperatorAdded =>
    obtain ⟨_, _, _, _, rfl⟩ := nodeOperatorAdded_eq_ok.mp h
    exact .kept rfl rfl rfl
  | nodeOperatorUpdated =>
    obtain ⟨_, _, _, _, rfl⟩ := nodeOperatorUpdated_eq_ok.mp h
    exact .kept rfl rfl rfl
  | nodeOperatorRemoved =>
    obtain ⟨_, _, _, _, rfl⟩ := nodeOperatorRemoved_eq_ok.mp h
    exact .kept rfl rfl rfl
  | settingsUpdated =>
    obtain ⟨_, _, rfl⟩ := settingsUpdated_eq_ok.mp h
    exact .kept rfl rfl rfl

/-- A migration in progress has raised the version. -/
def Raised (view : View S D) : Prop :=
  view.migration.isInProgress = true → 1 ≤ view.keyspaceVersion

/-- Without pulling operators there is no migration in progress. -/
theorem pulling_of_isInProgress {migration : SmartContract.Migration}
    {keyspace : SmartContract.Keyspace} {result : Migration}
    (h : Migration.tryFromSc migration keyspace = .ok result)
    (hprogress : result.isInProgress = true) : migration.pullingOperators ≠ ∅ := by
  intro hpulling
  obtain ⟨state, hstate, h⟩ := bind_eq_ok.mp h
  obtain ⟨_, _, h⟩ := bind_eq_ok.mp h
  cases h
  unfold Migration.stateFromSc at hstate
  split at hstate
  · obtain ⟨_, _, rfl⟩ := map_eq_ok.mp hstate
    cases hprogress
  · rw [if_pos hpulling] at hstate
    cases hstate
    cases hprogress

theorem raised_tryFromSc {fetched : SmartContract.ClusterView}
    (h : View.tryFromSc cfg fetched = .ok view) : view.Raised := by
  obtain ⟨version, hbuilt⟩ := View.tryFromSc_eq_ok.mp h
  intro hprogress
  have hversion := hbuilt.primaryVersion
  rw [View.primaryKeyspaceVersion, if_neg (pulling_of_isInProgress hbuilt.migration hprogress)] at hversion
  split_ifs at hversion with hzero
  rw [hbuilt.keyspaceVersion]
  exact Nat.one_le_iff_ne_zero.mpr hzero

theorem raised_change (hraised : view.Raised) (h : view.change cfg event = .ok view') :
    view'.Raised := by
  intro hprogress
  obtain ⟨current, hcurrent⟩ := isInProgress_iff.mp hprogress
  cases migrates_change h with
  | kept _ hversion htarget =>
    rw [hversion]
    exact hraised (isInProgress_iff.mpr ⟨current, htarget ▸ hcurrent⟩)
  | started _ _ _ hversion _ =>
    rw [hversion]
    exact Nat.succ_pos _
  | completed _ _ _ _ htarget =>
    rw [htarget] at hcurrent
    cases hcurrent
  | aborted _ _ htarget =>
    rw [htarget] at hcurrent
    cases hcurrent

theorem Reached.raised (h : Reached cfg view) : view.Raised := by
  induction h with
  | fetched h => exact raised_tryFromSc h
  | applied _ h ih =>
    obtain ⟨_, _, hchange, rfl⟩ := applyEvent_eq_ok.mp h
    have hraised := raised_change ih hchange
    exact hraised

structure Sized (view : View S D) : Prop where
  primary : 5 ≤ view.keyspace.operators.card
  secondary : ∀ keyspace, view.migration.keyspace = some keyspace → 5 ≤ keyspace.operators.card

theorem sized_migration {migration : SmartContract.Migration} {keyspace : SmartContract.Keyspace}
    {result : Migration} (h : Migration.tryFromSc migration keyspace = .ok result) :
    ∀ secondary, result.keyspace = some secondary → 5 ≤ secondary.operators.card := by
  obtain ⟨state, hstate, h⟩ := bind_eq_ok.mp h
  obtain ⟨_, _, h⟩ := bind_eq_ok.mp h
  cases h
  intro secondary hsecondary
  unfold Migration.stateFromSc at hstate
  split at hstate
  · obtain ⟨_, _, rfl⟩ := map_eq_ok.mp hstate
    cases hsecondary
  · split_ifs at hstate
    · cases hstate
      cases hsecondary
    · obtain ⟨started, hstarted, rfl⟩ := map_eq_ok.mp hstate
      cases hsecondary
      obtain ⟨_, hcount, rfl⟩ := Keyspace.tryFrom_eq_ok.mp (mapError_eq_ok.mp hstarted)
      exact hcount

theorem sized_tryFromSc {fetched : SmartContract.ClusterView}
    (h : View.tryFromSc cfg fetched = .ok view) : view.Sized := by
  obtain ⟨version, hbuilt⟩ := View.tryFromSc_eq_ok.mp h
  refine ⟨?_, sized_migration hbuilt.migration⟩
  obtain ⟨_, hcount, hkeyspace⟩ := Keyspace.tryFrom_eq_ok.mp hbuilt.keyspace
  rw [hkeyspace]
  exact hcount

theorem sized_change (hview : view.Sized) (h : view.change cfg event = .ok view') :
    view'.Sized := by
  cases migrates_change h with
  | kept hkeyspace _ htarget =>
    refine ⟨hkeyspace ▸ hview.primary, ?_⟩
    rw [htarget]
    exact hview.secondary
  | started newKeyspace hcount hkeyspace _ htarget =>
    refine ⟨hkeyspace ▸ hview.primary, fun keyspace h => ?_⟩
    cases htarget.symm.trans h
    exact hcount
  | completed newKeyspace hold hkeyspace _ htarget =>
    refine ⟨hkeyspace ▸ hview.secondary newKeyspace hold, fun keyspace h => ?_⟩
    cases htarget.symm.trans h
  | aborted hkeyspace _ htarget =>
    refine ⟨hkeyspace ▸ hview.primary, fun keyspace h => ?_⟩
    cases htarget.symm.trans h

theorem Reached.sized (h : Reached cfg view) : view.Sized := by
  induction h with
  | fetched h => exact sized_tryFromSc h
  | applied _ h ih =>
    obtain ⟨_, _, hchange, rfl⟩ := applyEvent_eq_ok.mp h
    have hsized := sized_change ih hchange
    exact ⟨hsized.primary, hsized.secondary⟩

/-- There are no more slots than an index of a slot can address. -/
theorem Reached.length_slots (h : Reached cfg view) :
    view.nodeOperators.slots.length ≤ maxOperators := by
  induction h with
  | fetched h =>
    obtain ⟨_, hbuilt⟩ := View.tryFromSc_eq_ok.mp h
    rw [(NodeOperators.fromSlots_ok hbuilt.nodeOperators).1]
    exact (NodeOperators.length_of_fromSlots hbuilt.nodeOperators).2
  | applied _ h ih =>
    obtain ⟨_, _, hchange, rfl⟩ := applyEvent_eq_ok.mp h
    rcases (frame_change hchange).2 with hsame | ⟨idx, slot, hset⟩
    · exact hsame ▸ ih
    · rw [NodeOperators.length_set hset]
      exact Nat.max_le.mpr ⟨ih, idx.isLt⟩

end Reached

end View

/-! ## Views and the chain -/

section Chain

variable {env : Env} {call : Call} {s s' : Contract.State} {event : Contract.Event} {chain : Chain}

theorem Tracks.of_withoutOwner {cfg : Config S D} {view : View S D} (hv : Tracks cfg s view)
    (h : withoutOwner s' = withoutOwner s) : Tracks cfg s' view := by
  have hv' : Tracks cfg (withoutOwner s') view := h ▸ hv.owner 0 0
  exact hv'.owner s'.owner s'.pendingOwner

structure Chain.Linked (chain : Chain) : Prop where
  registry : ∀ s ∈ chain.states, Contract.Registry s
  membership : ∀ s ∈ chain.states, Contract.Membership s
  version : ∀ s ∈ chain.states, s.version ≤ chain.state.version
  same : ∀ s ∈ chain.states, ∀ s' ∈ chain.states, s.version = s'.version →
    withoutOwner s = withoutOwner s'
  logs : chain.Logged

theorem Chain.Linked.initial (hr : Contract.Registry s) (hm : Contract.Membership s) :
    Chain.Linked ⟨s, [], []⟩ := by
  have hstates : ∀ s' ∈ Chain.states ⟨s, [], []⟩, s' = s := fun s' h => List.mem_singleton.mp h
  constructor
  case registry =>
    intro s' hs'
    rw [hstates s' hs']
    exact hr
  case membership =>
    intro s' hs'
    rw [hstates s' hs']
    exact hm
  case version =>
    intro s' hs'
    rw [hstates s' hs']
  case same =>
    intro s' hs' s'' hs'' _
    rw [hstates s' hs', hstates s'' hs'']
  case logs =>
    intro log hlog
    cases hlog

/-- A new state has a new version, unless only its owner is new. -/
theorem Chain.Linked.next (hc : chain.Linked) (h : Transition env chain.state call s event) :
    chain.state.version ≤ s.version ∧
      ∀ s₀ ∈ chain.states, s₀.version = s.version → withoutOwner s₀ = withoutOwner s := by
  cases he : SmartContract.Event.tryFrom env.timestamp event with
  | none =>
    have hversion := version_of_tryFrom_eq_none h he
    refine ⟨hversion.ge, fun s₀ hs₀ heq => ?_⟩
    rw [withoutOwner_of_tryFrom_eq_none h he]
    exact hc.same s₀ hs₀ _ List.mem_cons_self (heq.trans hversion)
  | some e =>
    have hversion := (clusterVersion_tryFrom h he).2
    refine ⟨by omega, fun s₀ hs₀ heq => ?_⟩
    have hle := hc.version s₀ hs₀
    omega

theorem Chain.Linked.append (hc : chain.Linked)
    (h : Contract.exec env call chain.state = .ok (s, event)) :
    (chain.append env s event).Linked := by
  rw [Contract.exec_iff] at h
  have hcurrent : chain.state ∈ chain.states := List.mem_cons_self
  obtain ⟨hversion, hsame⟩ := hc.next h
  constructor
  case registry =>
    intro s₀ hs₀
    rcases List.mem_cons.mp hs₀ with rfl | hs₀
    · exact Contract.registry_transition (hc.registry _ hcurrent) h
    · exact hc.registry s₀ hs₀
  case membership =>
    intro s₀ hs₀
    rcases List.mem_cons.mp hs₀ with rfl | hs₀
    · exact Contract.membership_transition (hc.membership _ hcurrent) h
    · exact hc.membership s₀ hs₀
  case version =>
    intro s₀ hs₀
    rcases List.mem_cons.mp hs₀ with rfl | hs₀
    · exact Nat.le_refl _
    · exact (hc.version s₀ hs₀).trans hversion
  case same =>
    intro s₀ hs₀ s₁ hs₁ heq
    rcases List.mem_cons.mp hs₀ with rfl | hs₀ <;> rcases List.mem_cons.mp hs₁ with rfl | hs₁
    · rfl
    · exact (hsame s₁ hs₁ heq.symm).symm
    · exact hsame s₀ hs₀ heq
    · exact hc.same s₀ hs₀ s₁ hs₁ heq
  case logs => exact hc.logs.append h

end Chain

/-! ## Stored views -/

section Stored

variable {cfg : Config S D} {chain : Chain} {view view' : View S D}

structure Stored (cfg : Config S D) (chain : Chain) (view : View S D) : Prop where
  reached : View.Reached cfg view
  tracks : ∃ s ∈ chain.states, Tracks cfg s view

theorem Stored.snapshot (hc : chain.Linked) {s : Contract.State} (hs : s ∈ chain.states)
    (h : snapshot cfg s = .ok view) : Stored cfg chain view :=
  ⟨.fetched h, s, hs, (snapshot_mirrors (hc.registry s hs) (hc.membership s hs) h).tracks⟩

/-- A node whose view has the version of the contract is in sync with it. -/
theorem Stored.tracks_state (hc : chain.Linked) (hv : Stored cfg chain view)
    (hversion : view.clusterVersion = chain.state.version) : Tracks cfg chain.state view := by
  obtain ⟨s, hs, htracks⟩ := hv.tracks
  refine htracks.of_withoutOwner (hc.same _ List.mem_cons_self s hs ?_)
  rw [← hversion, htracks.clusterVersion]

/-- The log of the next version belongs to the state the view tracks, up to its owner. -/
theorem Stored.tracks_log (hc : chain.Linked) (hv : Stored cfg chain view) {log : Log}
    (hlog : log ∈ chain.logs) {e : SmartContract.Event} (he : log.decode = some e)
    (hnext : e.clusterVersion = view.clusterVersion + 1) :
    ∃ (env : Env) (call : Call), ∃ s₁ ∈ chain.states, ∃ s₂ ∈ chain.states,
      Transition env s₁ call s₂ log.event ∧
      SmartContract.Event.tryFrom env.timestamp log.event = some e ∧ Tracks cfg s₁ view := by
  obtain ⟨s, hs, htracks⟩ := hv.tracks
  obtain ⟨env, call, s₁, hs₁, s₂, hs₂, htime, htransition⟩ := hc.logs log hlog
  have he' : SmartContract.Event.tryFrom env.timestamp log.event = some e := by
    rw [htime]
    exact he
  have hnumber := (clusterVersion_tryFrom htransition he').1
  have hversion : s₁.version = s.version := by
    have hshown := htracks.clusterVersion
    omega
  exact ⟨env, call, s₁, hs₁, s₂, hs₂, htransition, he',
    htracks.of_withoutOwner (hc.same s₁ hs₁ s hs hversion)⟩

theorem Stored.next (hc : chain.Linked) (hv : Stored cfg chain view) {log : Log}
    (hlog : log ∈ chain.logs) {e : SmartContract.Event} (he : log.decode = some e)
    (h : view.applyEvent cfg e = .ok view') : Stored cfg chain view' := by
  obtain ⟨env, call, s₁, hs₁, s₂, hs₂, htransition, he', htracks⟩ :=
    hv.tracks_log hc hlog he (sequenced_applyEvent cfg h).1
  exact ⟨.applied hv.reached h, s₂, hs₂,
    tracks_applyEvent (hc.registry s₁ hs₁) htracks htransition he' h⟩

theorem Stored.append (hv : Stored cfg chain view) {env : Env} {s : Contract.State}
    {event : Contract.Event} : Stored cfg (chain.append env s event) view := by
  obtain ⟨s₀, hs₀, htracks⟩ := hv.tracks
  exact ⟨hv.reached, s₀, List.mem_cons_of_mem _ hs₀, htracks⟩

theorem Stored.handle (hc : chain.Linked) {task : Task S D} (ht : Stored cfg chain task.view)
    {input : Input} (hinput : chain.Offers input) : Stored cfg chain (task.handle cfg input).view := by
  rcases Task.handle_view cfg task hinput with h | ⟨s, hs, h⟩ | ⟨log, hlog, e, he, h⟩
  · rw [h]
    exact ht
  · exact .snapshot hc hs h
  · exact ht.next hc hlog he h

end Stored

namespace World

variable {cfg : Config S D} {w : World S D}

structure Stores (cfg : Config S D) (w : World S D) : Prop where
  linked : w.chain.Linked
  stored : ∀ task, w.task = some task → Stored cfg w.chain task.view

theorem stores_step (cfg : Config S D) : Invariant (Step cfg) (Stores cfg) := by
  intro w w' hw h
  cases h with
  | transaction h =>
    exact ⟨hw.linked.append h, fun task ht => (hw.stored task ht).append⟩
  | @connect chain s task hs h =>
    refine ⟨hw.linked, fun task' ht => ?_⟩
    obtain ⟨view, hview, htask⟩ := bind_eq_ok.mp h
    cases ht
    cases htask
    exact .snapshot hw.linked hs hview
  | input _ hoffers =>
    refine ⟨hw.linked, fun task' ht => ?_⟩
    cases ht
    exact (hw.stored _ rfl).handle hw.linked hoffers

/-- A cluster initialized with distinct operators. -/
theorem stores_run {env : Env} {settings : Contract.Settings}
    {operators : List Contract.NodeOperator} {s₀ : Contract.State}
    (hinit : Contract.initializeCluster env settings operators = .ok s₀)
    (hnonzero : ∀ op ∈ operators, op.addr ≠ 0)
    (hdistinct : (operators.map Contract.NodeOperator.addr).Nodup)
    (hrun : Run (Step cfg) ⟨⟨s₀, [], []⟩, none, []⟩ w) : Stores cfg w := by
  have hregistry := Contract.registry_initialized hnonzero hdistinct hinit
  have hmembership := Contract.membership_initialized hinit
  refine (stores_step cfg).run hrun ⟨.initial hregistry hmembership, ?_⟩
  intro task ht
  cases ht

end World

end Cluster
end Wcn
