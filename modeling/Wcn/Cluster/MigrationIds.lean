import Wcn.Cluster.Sync

/-!
# Wcn.Cluster.MigrationIds

Which migration a stored view is about. Ids only grow on the chain, and a view has the id of the state
it shows, whatever operators the contract was initialized with.

* `Chain.IdsGrow` — later versions have no smaller migration ids.
* `ShowsId` — the view has the version and the migration id of a state of the chain. Two such views are
  ordered by their versions (`ShowsId.mono`).
-/

namespace Wcn
namespace Cluster

open Lib
open Contract (Env Call Transition)

variable {S D : Type}

/-- The id of a migration that is started by an event. -/
def SmartContract.Event.startedId : SmartContract.Event → Option Nat
  | .migrationStarted migrationId _ _ _ => some migrationId
  | _ => none

section Events

variable {env : Env} {call : Call} {s s' : Contract.State} {event : Contract.Event}
  {e : SmartContract.Event}

theorem migrationId_le (h : Transition env s call s' event) : s.migration.id ≤ s'.migration.id := by
  cases h with
  | startMigration _ _ _ _ _ _ _ _ _ => exact Nat.le_succ _
  | _ => exact Nat.le_refl _

theorem migrationId_of_tryFrom (h : Transition env s call s' event)
    (he : SmartContract.Event.tryFrom env.timestamp event = some e) :
    s'.migration.id = e.startedId.getD s.migration.id := by
  cases h <;> cases he <;> rfl

theorem migrationId_of_tryFrom_eq_none (h : Transition env s call s' event)
    (he : SmartContract.Event.tryFrom env.timestamp event = none) :
    s'.migration.id = s.migration.id := by
  have hsame := congrArg (·.migration.id) (withoutOwner_of_tryFrom_eq_none h he)
  exact hsame

theorem View.migrationId_change {cfg : Config S D} {view view' : View S D}
    (h : view.change cfg e = .ok view') :
    view'.migration.id = e.startedId.getD view.migration.id := by
  cases e with
  | migrationStarted =>
    obtain ⟨_, _, _, _, _, _, _, rfl⟩ := migrationStarted_eq_ok.mp h
    rfl
  | migrationDataPullCompleted =>
    obtain ⟨idx, _, _, _, _, rfl⟩ := migrationDataPullCompleted_eq_ok.mp h
    show (view.migration.completePull idx).id = view.migration.id
    unfold Migration.completePull
    split <;> rfl
  | migrationCompleted =>
    obtain ⟨_, _, _, _, _, _, _, rfl⟩ := migrationCompleted_eq_ok.mp h
    rfl
  | migrationAborted =>
    obtain ⟨_, _, _, rfl⟩ := migrationAborted_eq_ok.mp h
    rfl
  | maintenanceStarted =>
    obtain ⟨_, _, rfl⟩ := maintenanceStarted_eq_ok.mp h
    rfl
  | maintenanceFinished =>
    obtain ⟨_, rfl⟩ := maintenanceFinished_eq_ok.mp h
    rfl
  | nodeOperatorAdded =>
    obtain ⟨_, _, _, _, rfl⟩ := nodeOperatorAdded_eq_ok.mp h
    rfl
  | nodeOperatorUpdated =>
    obtain ⟨_, _, _, _, rfl⟩ := nodeOperatorUpdated_eq_ok.mp h
    rfl
  | nodeOperatorRemoved =>
    obtain ⟨_, _, _, _, rfl⟩ := nodeOperatorRemoved_eq_ok.mp h
    rfl
  | settingsUpdated =>
    obtain ⟨_, _, rfl⟩ := settingsUpdated_eq_ok.mp h
    rfl

end Events

/-! ## The chain -/

structure Chain.IdsGrow (chain : Chain) : Prop where
  version : ∀ s ∈ chain.states, s.version ≤ chain.state.version
  mono : ∀ s ∈ chain.states, ∀ s' ∈ chain.states, s.version ≤ s'.version →
    s.migration.id ≤ s'.migration.id
  logs : chain.Logged

section Chain

variable {chain : Chain} {env : Env} {call : Call} {s : Contract.State} {event : Contract.Event}

theorem Chain.IdsGrow.initial (s : Contract.State) : Chain.IdsGrow ⟨s, [], []⟩ := by
  have hstates : ∀ s' ∈ Chain.states ⟨s, [], []⟩, s' = s := fun s' h => List.mem_singleton.mp h
  constructor
  case version =>
    intro s' hs'
    rw [hstates s' hs']
  case mono =>
    intro s' hs' s'' hs'' _
    rw [hstates s' hs', hstates s'' hs'']
  case logs =>
    intro log hlog
    cases hlog

/-- A state of the new version, or of a later one, is about the new migration. -/
theorem Chain.IdsGrow.next (hc : chain.IdsGrow) (h : Transition env chain.state call s event) :
    chain.state.version ≤ s.version ∧
      ∀ s₀ ∈ chain.states, s.version ≤ s₀.version → s.migration.id ≤ s₀.migration.id := by
  cases he : SmartContract.Event.tryFrom env.timestamp event with
  | none =>
    have hversion := version_of_tryFrom_eq_none h he
    refine ⟨hversion.ge, fun s₀ hs₀ hle => ?_⟩
    rw [migrationId_of_tryFrom_eq_none h he]
    exact hc.mono _ List.mem_cons_self s₀ hs₀ (hversion ▸ hle)
  | some e =>
    have hversion := (clusterVersion_tryFrom h he).2
    refine ⟨by omega, fun s₀ hs₀ hle => ?_⟩
    have hbound := hc.version s₀ hs₀
    omega

theorem Chain.IdsGrow.append (hc : chain.IdsGrow)
    (h : Contract.exec env call chain.state = .ok (s, event)) :
    (chain.append env s event).IdsGrow := by
  rw [Contract.exec_iff] at h
  have hcurrent : chain.state ∈ chain.states := List.mem_cons_self
  obtain ⟨hversion, hnext⟩ := hc.next h
  constructor
  case version =>
    intro s₀ hs₀
    rcases List.mem_cons.mp hs₀ with rfl | hs₀
    · exact Nat.le_refl _
    · exact (hc.version s₀ hs₀).trans hversion
  case mono =>
    intro s₀ hs₀ s₁ hs₁ hle
    rcases List.mem_cons.mp hs₀ with rfl | hs₀ <;> rcases List.mem_cons.mp hs₁ with rfl | hs₁
    · exact Nat.le_refl _
    · exact hnext s₁ hs₁ hle
    · exact (hc.mono s₀ hs₀ _ hcurrent (hc.version s₀ hs₀)).trans (migrationId_le h)
    · exact hc.mono s₀ hs₀ s₁ hs₁ hle
  case logs => exact hc.logs.append h

end Chain

/-! ## Stored views -/

def ShowsId (chain : Chain) (view : View S D) : Prop :=
  ∃ s ∈ chain.states, s.version = view.clusterVersion ∧ s.migration.id = view.migration.id

section Views

variable {cfg : Config S D} {chain : Chain} {view view' : View S D}

theorem ShowsId.le_current (hc : chain.IdsGrow) (h : ShowsId chain view) :
    view.migration.id ≤ chain.state.migration.id := by
  obtain ⟨s, hs, -, hid⟩ := h
  rw [← hid]
  exact hc.mono s hs _ List.mem_cons_self (hc.version s hs)

theorem ShowsId.mono (hc : chain.IdsGrow) (h : ShowsId chain view) (h' : ShowsId chain view')
    (hle : view.clusterVersion ≤ view'.clusterVersion) : view.migration.id ≤ view'.migration.id := by
  obtain ⟨s, hs, hversion, hid⟩ := h
  obtain ⟨s', hs', hversion', hid'⟩ := h'
  rw [← hid, ← hid']
  exact hc.mono s hs s' hs' (by rwa [hversion, hversion'])

theorem ShowsId.append (h : ShowsId chain view) {env : Env} {s : Contract.State}
    {event : Contract.Event} : ShowsId (chain.append env s event) view := by
  obtain ⟨s₀, hs₀, hshown⟩ := h
  exact ⟨s₀, List.mem_cons_of_mem _ hs₀, hshown⟩

theorem ShowsId.snapshot {s : Contract.State} (hs : s ∈ chain.states)
    (h : Cluster.snapshot cfg s = .ok view) : ShowsId chain view := by
  obtain ⟨_, hbuilt⟩ := View.tryFromSc_eq_ok.mp h
  obtain ⟨_, _, hmigration⟩ := bind_eq_ok.mp hbuilt.migration
  obtain ⟨_, _, hmigration⟩ := bind_eq_ok.mp hmigration
  have hid := congrArg Migration.id (Except.ok.inj hmigration)
  exact ⟨s, hs, hbuilt.clusterVersion.symm, hid⟩

/-- An accepted log belongs to the state the view shows, up to its owner. -/
theorem ShowsId.next (hc : chain.IdsGrow) (hv : ShowsId chain view) {log : Log}
    (hlog : log ∈ chain.logs) {e : SmartContract.Event} (he : log.decode = some e)
    (h : view.applyEvent cfg e = .ok view') : ShowsId chain view' := by
  obtain ⟨s, hs, hversion, hid⟩ := hv
  obtain ⟨env, call, s₁, hs₁, s₂, hs₂, htime, htransition⟩ := hc.logs log hlog
  have he' : SmartContract.Event.tryFrom env.timestamp log.event = some e := by
    rw [htime]
    exact he
  obtain ⟨hnumber, hnext⟩ := clusterVersion_tryFrom htransition he'
  obtain ⟨hfollows, hstored⟩ := sequenced_applyEvent cfg h
  obtain ⟨_, changed, hchange, rfl⟩ := View.applyEvent_eq_ok.mp h
  have hsame : s₁.migration.id = s.migration.id :=
    Nat.le_antisymm (hc.mono s₁ hs₁ s hs (by omega)) (hc.mono s hs s₁ hs₁ (by omega))
  refine ⟨s₂, hs₂, by rw [hstored, hnumber, hnext], ?_⟩
  rw [migrationId_of_tryFrom htransition he', hsame, hid]
  exact (View.migrationId_change hchange).symm

theorem ShowsId.handle (hc : chain.IdsGrow) {task : Task S D} (ht : ShowsId chain task.view)
    {input : Input} (hinput : chain.Offers input) : ShowsId chain (task.handle cfg input).view := by
  rcases Task.handle_view cfg task hinput with h | ⟨s, hs, h⟩ | ⟨log, hlog, e, he, h⟩
  · rw [h]
    exact ht
  · exact .snapshot hs h
  · exact ht.next hc hlog he h

end Views

end Cluster
end Wcn
