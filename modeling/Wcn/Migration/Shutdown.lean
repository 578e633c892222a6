import Wcn.Migration.Manager

/-!
# Wcn.Migration.Shutdown

How the migration manager shuts down.

* `handleAll` — the loop over the events of its race, with the view at the time of each. No result
  means that the task has returned.
* `LeaveIdle`, `LeaveAwaiting` — the events after which the task is in a state it may be shut down in.
  It only returns out of such a state.
* `KeepsBusy` — the events that do not take a busy task to one. After the signal it should not wait in
  such a state either. But the loop checks the state it leaves and not the one it enters, so it does
  wait whenever it enters one.
-/

namespace Wcn
namespace Migration

open Lib Cluster
open Contract (transaction after)

variable {D : Type}

theorem State.canShutdown_iff {state : State} :
    state.canShutdown = true ↔ state = .idle ∨ ∃ id, state = .awaitingMigrationCompletion id := by
  cases state <;> simp [State.canShutdown]

structure Input (D : Type) where
  view : View Settings D
  event : Event

/-- The event does not take a busy task to a state it may be shut down in. -/
def Input.KeepsBusy (input : Input D) : Prop :=
  match input.event with
  | .clusterUpdate => input.view.ongoingMigrationId ≠ none
  | .stateTransition state => state.canShutdown = false
  | .shutdown => True

namespace Manager

/-- What the match of the loop makes of an event. The shutdown signal does not get that far. -/
def newState (self : Manager D) (input : Input D) : Option State :=
  match input.event with
  | .clusterUpdate => syncState self.state input.view
  | .stateTransition state => some state
  | .shutdown => none

def handleAll (self : Manager D) (inputs : List (Input D)) : Option (Manager D) :=
  inputs.foldlM (fun manager input => manager.handle input.view input.event) self

section Handle

variable {self self' : Manager D} {input : Input D}

theorem handle_of_shutdown (h : input.event = .shutdown) :
    self.handle input.view input.event =
      if self.state.canShutdown then none else some { self with isShuttingDown := true } := by
  rw [h]
  rfl

theorem handle_of_ne_shutdown (h : input.event ≠ .shutdown) :
    self.handle input.view input.event = self.transition (self.newState input) := by
  obtain ⟨view, event⟩ := input
  cases event with
  | clusterUpdate => rfl
  | stateTransition state => rfl
  | shutdown => exact absurd rfl h

theorem canShutdown_of_returned (h : self.handle input.view input.event = none) :
    self.state.canShutdown = true := by
  by_cases hevent : input.event = .shutdown
  · rw [handle_of_shutdown hevent] at h
    by_contra hbusy
    rw [if_neg hbusy] at h
    cases h
  · rw [handle_of_ne_shutdown hevent] at h
    cases hnew : self.newState input with
    | none =>
      rw [hnew] at h
      cases h
    | some state =>
      rw [hnew, transition] at h
      split_ifs at h with hcan
      exact (Bool.and_eq_true_iff.mp hcan).2

/-- A task that is not shutting down enters every new state. -/
theorem handle_of_not_shuttingDown (hshut : self.isShuttingDown = false)
    (hevent : input.event ≠ .shutdown) :
    ∃ self', self.handle input.view input.event = some self' ∧ self'.isShuttingDown = false ∧
      self'.state = (self.newState input).getD self.state := by
  rw [handle_of_ne_shutdown hevent]
  cases hnew : self.newState input with
  | none => exact ⟨self, rfl, hshut, rfl⟩
  | some state =>
    refine ⟨{ self with state := state, stateFut := stateFuture state }, ?_, hshut, rfl⟩
    rw [transition, hshut, Bool.false_and, if_neg Bool.false_ne_true]

/-- A busy task goes on, and whether it stays busy depends on the event only. -/
theorem handle_of_busy (hbusy : self.state.canShutdown = false) :
    ∃ self', self.handle input.view input.event = some self' ∧
      (self'.state.canShutdown = false ↔ input.KeepsBusy) := by
  obtain ⟨view, event⟩ := input
  cases event with
  | shutdown =>
    refine ⟨{ self with isShuttingDown := true }, ?_, iff_of_true hbusy trivial⟩
    rw [handle, hbusy, if_neg Bool.false_ne_true]
  | stateTransition state =>
    refine ⟨{ self with state := state, stateFut := stateFuture state }, ?_, Iff.rfl⟩
    rw [handle, transition, hbusy, Bool.and_false, if_neg Bool.false_ne_true]
  | clusterUpdate =>
    -- a busy task has a migration
    obtain ⟨id, hid⟩ : ∃ id, self.state.migrationId = some id := by
      cases hstate : self.state with
      | transferringData id => exact ⟨id, rfl⟩
      | completingMigration id => exact ⟨id, rfl⟩
      | awaitingMigrationCompletion id =>
        rw [hstate] at hbusy
        cases hbusy
      | idle =>
        rw [hstate] at hbusy
        cases hbusy
    rw [handle, syncState, hid]
    cases hview : view.ongoingMigrationId with
    | none =>
      refine ⟨{ self with state := .idle, stateFut := stateFuture .idle }, ?_, ?_⟩
      · simp only [transition, hbusy, Bool.and_false, Bool.false_eq_true, if_false]
      · simp [State.canShutdown, Input.KeepsBusy, hview]
    | some id' =>
      have hkeeps : (⟨view, .clusterUpdate⟩ : Input D).KeepsBusy := by
        simp [Input.KeepsBusy, hview]
      dsimp only
      split
      · exact ⟨self, rfl, iff_of_true hbusy hkeeps⟩
      · rw [transition, hbusy, Bool.and_false, if_neg Bool.false_ne_true]
        exact ⟨_, rfl, iff_of_true rfl hkeeps⟩

theorem handleAll_concat {done : List (Input D)} :
    self.handleAll (done ++ [input]) = some self' ↔ ∃ manager, self.handleAll done = some manager ∧
      manager.handle input.view input.event = some self' := by
  rw [handleAll, List.foldlM_append]
  simp only [List.foldlM_cons, List.foldlM_nil, bind_pure]
  exact Option.bind_eq_some_iff

end Handle

/-! ## Runs of the loop -/

/-- The shutdown signal has been consumed. -/
def Signalled (done : List (Input D)) : Prop := ∃ input ∈ done, input.event = .shutdown

/-- After the signal, the task never waits in a state it may be shut down in. It never returns out
of another. -/
structure Graceful (inputs : List (Input D)) : Prop where
  waits : ∀ done manager, done <+: inputs → handleAll .new done = some manager → Signalled done →
    manager.state.canShutdown = false
  returns : ∀ done input manager, done ++ [input] <+: inputs → handleAll .new done = some manager →
    manager.handle input.view input.event = none → manager.state.canShutdown = true

theorem signalled_concat {done : List (Input D)} {input : Input D} :
    Signalled (done ++ [input]) ↔ Signalled done ∨ input.event = .shutdown := by
  simp only [Signalled, List.mem_append, List.mem_singleton, or_and_right, exists_or,
    exists_eq_left]

theorem exists_signal {done : List (Input D)} (h : Signalled done) :
    ∃ before signal after, done = before ++ signal :: after ∧ ¬ Signalled before ∧
      signal.event = .shutdown := by
  induction done using List.reverseRecOn with
  | nil =>
    obtain ⟨input, hmem, _⟩ := h
    cases hmem
  | append_singleton done input ih =>
    by_cases hdone : Signalled done
    · obtain ⟨before, signal, after, rfl, hbefore, hsignal⟩ := ih hdone
      exact ⟨before, signal, after ++ [input], by simp, hbefore, hsignal⟩
    · exact ⟨done, input, [], rfl, hdone, (signalled_concat.mp h).resolve_left hdone⟩

/-! ## Before the signal -/

/-- The events after which the task is idle: there were none, or the last of them made it so. -/
inductive LeaveIdle : List (Input D) → Prop where
  | new : LeaveIdle []
  | update {before : List (Input D)} {view : View Settings D} : view.ongoingMigrationId = none →
      LeaveIdle (before ++ [⟨view, .clusterUpdate⟩])
  | transition {before : List (Input D)} {view : View Settings D} :
      LeaveIdle (before ++ [⟨view, .stateTransition .idle⟩])

/-- The events after which the task awaits the completion of a migration: it got there, and every view
it has been shown since then has this migration. -/
inductive LeaveAwaiting (id : Nat) : List (Input D) → Prop where
  | transition {before : List (Input D)} {view : View Settings D} :
      LeaveAwaiting id (before ++ [⟨view, .stateTransition (.awaitingMigrationCompletion id)⟩])
  | update {before : List (Input D)} {view : View Settings D} : LeaveAwaiting id before →
      view.ongoingMigrationId = some id → LeaveAwaiting id (before ++ [⟨view, .clusterUpdate⟩])

section Leave

variable {before : List (Input D)} {view : View Settings D} {state : State} {id : Nat}

theorem leaveIdle_transition :
    LeaveIdle (before ++ [⟨view, .stateTransition state⟩]) ↔ state = .idle := by
  constructor
  · intro h
    generalize hinputs : before ++ [⟨view, .stateTransition state⟩] = inputs at h
    cases h with
    | new => simp at hinputs
    | update => simp at hinputs
    | transition =>
      simp only [List.append_singleton_inj, Input.mk.injEq, Event.stateTransition.injEq] at hinputs
      exact hinputs.2.2
  · rintro rfl
    exact .transition

theorem leaveIdle_update :
    LeaveIdle (before ++ [⟨view, .clusterUpdate⟩]) ↔ view.ongoingMigrationId = none := by
  constructor
  · intro h
    generalize hinputs : before ++ [⟨view, .clusterUpdate⟩] = inputs at h
    cases h with
    | new => simp at hinputs
    | update hview =>
      simp only [List.append_singleton_inj, Input.mk.injEq] at hinputs
      rw [hinputs.2.1]
      exact hview
    | transition => simp at hinputs
  · exact .update

theorem leaveAwaiting_transition :
    LeaveAwaiting id (before ++ [⟨view, .stateTransition state⟩]) ↔
      state = .awaitingMigrationCompletion id := by
  constructor
  · intro h
    generalize hinputs : before ++ [⟨view, .stateTransition state⟩] = inputs at h
    cases h with
    | update => simp at hinputs
    | transition =>
      simp only [List.append_singleton_inj, Input.mk.injEq, Event.stateTransition.injEq] at hinputs
      exact hinputs.2.2
  · rintro rfl
    exact .transition

theorem leaveAwaiting_update :
    LeaveAwaiting id (before ++ [⟨view, .clusterUpdate⟩]) ↔
      LeaveAwaiting id before ∧ view.ongoingMigrationId = some id := by
  constructor
  · intro h
    generalize hinputs : before ++ [⟨view, .clusterUpdate⟩] = inputs at h
    cases h with
    | transition => simp at hinputs
    | update hbefore hview =>
      simp only [List.append_singleton_inj, Input.mk.injEq] at hinputs
      rw [hinputs.1, hinputs.2.1]
      exact ⟨hbefore, hview⟩
  · exact fun h => .update h.1 h.2

end Leave

/-- Where a cluster update leads. -/
theorem syncState_getD (current : State) (view : View Settings D) :
    ((syncState current view).getD current = .idle ↔ view.ongoingMigrationId = none) ∧
    ∀ id, (syncState current view).getD current = .awaitingMigrationCompletion id ↔
      current = .awaitingMigrationCompletion id ∧ view.ongoingMigrationId = some id := by
  rw [syncState]
  cases hview : view.ongoingMigrationId with
  | none => cases current <;> simp [State.migrationId]
  | some id' =>
    cases current with
    | idle => simp [State.migrationId]
    | transferringData id => by_cases hid : id = id' <;> simp [State.migrationId, hid]
    | completingMigration id => by_cases hid : id = id' <;> simp [State.migrationId, hid]
    | awaitingMigrationCompletion id =>
      by_cases hid : id = id'
      · simp [State.migrationId, hid]
      · have hne : ¬ id' = id := fun h => hid h.symm
        simp [State.migrationId, hid, hne]

/-- By induction on the events: before the signal the task enters every new state. -/
theorem handleAll_unsignalled (before : List (Input D)) (h : ¬ Signalled before) :
    ∃ manager, handleAll .new before = some manager ∧ manager.isShuttingDown = false ∧
      (manager.state = .idle ↔ LeaveIdle before) ∧
      ∀ id, manager.state = .awaitingMigrationCompletion id ↔ LeaveAwaiting id before := by
  induction before using List.reverseRecOn with
  | nil =>
    refine ⟨.new, rfl, rfl, iff_of_true rfl .new, fun id => iff_of_false (fun h => by cases h) ?_⟩
    intro hleave
    generalize hinputs : ([] : List (Input D)) = inputs at hleave
    cases hleave <;> simp at hinputs
  | append_singleton before input ih =>
    obtain ⟨hbefore, hevent⟩ := not_or.mp (signalled_concat.not.mp h)
    obtain ⟨manager, hrun, hshut, hidle, hawaiting⟩ := ih hbefore
    obtain ⟨manager', hhandle, hshut', hstate⟩ := handle_of_not_shuttingDown hshut hevent
    refine ⟨manager', handleAll_concat.mpr ⟨manager, hrun, hhandle⟩, hshut', ?_⟩
    obtain ⟨view, event⟩ := input
    rw [hstate]
    cases event with
    | shutdown => exact absurd rfl hevent
    | stateTransition state =>
      exact ⟨leaveIdle_transition.symm, fun id => leaveAwaiting_transition.symm⟩
    | clusterUpdate =>
      obtain ⟨hidle', hawaiting'⟩ := syncState_getD manager.state view
      refine ⟨hidle'.trans leaveIdle_update.symm, fun id => ?_⟩
      rw [leaveAwaiting_update, ← hawaiting id]
      exact hawaiting' id

/-! ## After the signal -/

theorem handleAll_cons (self : Manager D) (input : Input D) (inputs : List (Input D)) :
    self.handleAll (input :: inputs) =
      (self.handle input.view input.event).bind (handleAll · inputs) := by
  rw [handleAll, List.foldlM_cons]
  rfl

/-- A busy task never comes to rest if and only if no event takes it there. -/
theorem handleAll_busy {manager : Manager D} (hbusy : manager.state.canShutdown = false)
    (inputs : List (Input D)) :
    (∀ done manager', done <+: inputs → manager.handleAll done = some manager' →
      manager'.state.canShutdown = false) ↔ ∀ input ∈ inputs, input.KeepsBusy := by
  induction inputs generalizing manager with
  | nil =>
    refine iff_of_true (fun done manager' hdone hrun => ?_) fun _ hmem => absurd hmem List.not_mem_nil
    rw [List.prefix_nil.mp hdone] at hrun
    cases hrun
    exact hbusy
  | cons input inputs ih =>
    obtain ⟨next, hhandle, hkeeps⟩ := @handle_of_busy _ manager input hbusy
    have hcons : ∀ done, manager.handleAll (input :: done) = next.handleAll done := fun done => by
      rw [handleAll_cons, hhandle, Option.bind_some]
    constructor
    · intro h
      have hnext : next.state.canShutdown = false := h [input] next (by simp) (hcons [])
      refine List.forall_mem_cons.mpr ⟨hkeeps.mp hnext, (ih hnext).mp fun done manager' hdone hrun => ?_⟩
      exact h (input :: done) manager' (List.cons_prefix_cons.mpr ⟨rfl, hdone⟩) ((hcons done).trans hrun)
    · intro h done manager' hdone hrun
      obtain ⟨hinput, hinputs⟩ := List.forall_mem_cons.mp h
      cases done with
      | nil =>
        cases hrun
        exact hbusy
      | cons _ done =>
        obtain ⟨rfl, hrest⟩ := List.cons_prefix_cons.mp hdone
        rw [hcons] at hrun
        exact (ih (hkeeps.mpr hinput)).mpr hinputs done manager' hrest hrun

/-- The signal ends a task that is at rest, and is noted by a busy one. -/
theorem handleAll_signal {before after : List (Input D)} {signal : Input D} {manager : Manager D}
    (hrun : handleAll .new before = some manager) (hsignal : signal.event = .shutdown) :
    handleAll .new (before ++ signal :: after) =
      if manager.state.canShutdown then none
      else handleAll { manager with isShuttingDown := true } after := by
  have happend : handleAll .new (before ++ signal :: after) =
      (handleAll .new before).bind (handleAll · (signal :: after)) := by
    rw [handleAll, List.foldlM_append]
    rfl
  rw [happend, hrun, Option.bind_some, handleAll_cons, handle_of_shutdown hsignal]
  split <;> rfl

/-- For every sequence of events, shutting down is graceful if and only if the signal finds the task at
rest, or no event after it takes the task to a state it may be shut down in. -/
theorem graceful_iff (inputs : List (Input D)) :
    Graceful inputs ↔ ∀ before signal after, inputs = before ++ signal :: after → ¬ Signalled before →
      signal.event = .shutdown →
      LeaveIdle before ∨ (∃ id, LeaveAwaiting id before) ∨ ∀ input ∈ after, input.KeepsBusy := by
  constructor
  · intro hgraceful before signal after hinputs hbefore hsignal
    obtain ⟨manager, hrun, _, hidle, hawaiting⟩ := handleAll_unsignalled before hbefore
    by_cases hcan : manager.state.canShutdown = true
    · rcases State.canShutdown_iff.mp hcan with hstate | ⟨id, hstate⟩
      · exact .inl (hidle.mp hstate)
      · exact .inr (.inl ⟨id, (hawaiting id).mp hstate⟩)
    · refine .inr (.inr ?_)
      have hbusy := Bool.eq_false_iff.mpr hcan
      refine (@handleAll_busy _ { manager with isShuttingDown := true } hbusy after).mp ?_
      intro done manager' hdone hrun'
      refine hgraceful.waits (before ++ signal :: done) manager' ?_ ?_
        ⟨signal, by simp, hsignal⟩
      · rw [hinputs]
        exact (List.prefix_append_right_inj _).mpr (List.cons_prefix_cons.mpr ⟨rfl, hdone⟩)
      · rw [handleAll_signal hrun hsignal, if_neg hcan]
        exact hrun'
  · intro h
    refine ⟨fun done manager' hdone hrun' hsignalled => ?_, fun _ _ _ _ _ => canShutdown_of_returned⟩
    obtain ⟨before, signal, done, rfl, hbefore, hsignal⟩ := exists_signal hsignalled
    obtain ⟨rest, rfl⟩ := hdone
    obtain ⟨manager, hrun, _, hidle, hawaiting⟩ := handleAll_unsignalled before hbefore
    rw [handleAll_signal hrun hsignal] at hrun'
    split at hrun'
    · cases hrun'
    · next hcan =>
      have hafter : ∀ input ∈ done ++ rest, input.KeepsBusy := by
        rcases h before signal (done ++ rest) (by simp) hbefore hsignal with hleave | ⟨id, hleave⟩ | hafter
        · exact absurd (State.canShutdown_iff.mpr (.inl (hidle.mpr hleave))) hcan
        · exact absurd (State.canShutdown_iff.mpr (.inr ⟨id, (hawaiting id).mpr hleave⟩)) hcan
        · exact hafter
      have hbusy := Bool.eq_false_iff.mpr hcan
      exact (@handleAll_busy _ { manager with isShuttingDown := true } hbusy _).mpr hafter done manager'
        (List.prefix_append done rest) hrun'

/-- Without a new migration, an idle task waits forever. -/
theorem handleAll_idle {future : Future D} {isShuttingDown : Bool} {inputs : List (Input D)}
    (h : ∀ input ∈ inputs, input.event = .clusterUpdate ∧ input.view.ongoingMigrationId = none) :
    handleAll ⟨.idle, future, isShuttingDown⟩ inputs = some ⟨.idle, future, isShuttingDown⟩ := by
  induction inputs with
  | nil => rfl
  | cons input inputs ih =>
    obtain ⟨hevent, hongoing⟩ := h input List.mem_cons_self
    have hkept : handle ⟨.idle, future, isShuttingDown⟩ input.view input.event =
        some ⟨.idle, future, isShuttingDown⟩ := by
      rw [hevent, handle, syncState, hongoing]
      rfl
    rw [handleAll_cons, hkept, Option.bind_some]
    exact ih fun input' hmem => h input' (List.mem_cons_of_mem input hmem)

theorem not_graceful {inputs : List (Input D)} {manager : Manager D}
    (hrun : handleAll .new inputs = some manager) (hsignalled : Signalled inputs)
    (hcan : manager.state.canShutdown = true) : ¬ Graceful inputs := by
  intro hgraceful
  have hnot := hgraceful.waits inputs manager List.prefix_rfl hrun hsignalled
  rw [hcan] at hnot
  cases hnot

/-- The signal arrives while data is transferred. When the migration is then aborted, the task waits
for the next one to start. When its pull completes, it waits for the migration to end. -/
theorem waits_after_shutdown :
    ∃ view view', snapshot usualSettings migrating = .ok view ∧
      snapshot usualSettings (after (transaction 99 20) (.abortMigration 1) migrating).1 =
        .ok view' ∧
      ¬ Graceful [⟨view, .clusterUpdate⟩, ⟨view, .shutdown⟩, ⟨view', .clusterUpdate⟩] ∧
      (∀ inputs : List (Input Unit), (∀ input ∈ inputs, input.event = .clusterUpdate ∧
          input.view.ongoingMigrationId = none) →
        handleAll .new ([⟨view, .clusterUpdate⟩, ⟨view, .shutdown⟩, ⟨view', .clusterUpdate⟩] ++
          inputs) = some ⟨.idle, .pending, true⟩) ∧
      ¬ Graceful [⟨view, .clusterUpdate⟩, ⟨view, .shutdown⟩,
        ⟨view, .stateTransition (.completingMigration 1)⟩,
        ⟨view, .stateTransition (.awaitingMigrationCompletion 1)⟩] := by
  have hsnapshot : (snapshot usualSettings migrating).toOption.map View.ongoingMigrationId =
      some (some 1) := by decide +kernel
  have hsnapshot' : (snapshot usualSettings
      (after (transaction 99 20) (.abortMigration 1) migrating).1).toOption.map
        View.ongoingMigrationId = some none := by decide +kernel
  obtain ⟨view, hview, hongoing⟩ := Option.map_eq_some_iff.mp hsnapshot
  obtain ⟨view', hview', hover⟩ := Option.map_eq_some_iff.mp hsnapshot'
  rw [toOption_eq_some] at hview hview'
  have hstarts : Manager.new.handle view .clusterUpdate =
      some ⟨.transferringData 1, .transferData 1, false⟩ := by
    rw [handle, syncState, hongoing]
    rfl
  have hstops : handle ⟨.transferringData 1, .transferData 1, true⟩ view' .clusterUpdate =
      some ⟨.idle, .pending, true⟩ := by
    rw [handle, syncState, hover]
    rfl
  have haborted : ∀ inputs, handleAll .new
      (⟨view, .clusterUpdate⟩ :: ⟨view, .shutdown⟩ :: ⟨view', .clusterUpdate⟩ :: inputs) =
        handleAll ⟨.idle, .pending, true⟩ inputs := by
    intro inputs
    rw [handleAll_cons, hstarts, Option.bind_some, handleAll_cons]
    exact (handleAll_cons _ _ _).trans (by rw [hstops, Option.bind_some])
  have hcompleted : handleAll .new [⟨view, .clusterUpdate⟩, ⟨view, .shutdown⟩,
      ⟨view, .stateTransition (.completingMigration 1)⟩,
      ⟨view, .stateTransition (.awaitingMigrationCompletion 1)⟩] =
        some ⟨.awaitingMigrationCompletion 1, .awaitMigrationCompletion 1, true⟩ := by
    rw [handleAll_cons, hstarts]
    rfl
  refine ⟨view, view', hview, hview', ?_, ?_, ?_⟩
  · exact not_graceful (haborted []) ⟨⟨view, .shutdown⟩, by simp, rfl⟩ rfl
  · intro inputs h
    exact (haborted inputs).trans (handleAll_idle h)
  · exact not_graceful hcompleted ⟨⟨view, .shutdown⟩, by simp, rfl⟩ rfl

end Manager

end Migration
end Wcn
