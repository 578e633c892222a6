import Wcn.Cluster.Follow

/-!
# Wcn.Cluster.Replay

Replaying the event of a call on the view of the state before it, against building the view of the
state after it anew.

* `View.observe` — what the two are compared by. Trailing empty slots and the owner are left out.
* `replayedState_completes`, `replayedState_of_not_completes` — the event leaves the state of the
  migration a snapshot has, except that a completed migration is `completed` no matter what the
  recorded times say.
* `replay_eq_refetch_iff` — the two agree, unless the call completes a migration that was started
  in the second the one before it was aborted in.
-/

namespace Wcn
namespace Cluster

open Lib
open Contract (Address Bytes Env Call Transition Sound transaction sixOperators after
  initial_sixOperators)
open Contract.Bitmask

variable {S D : Type} {cfg : Config S D} {policy : Contract.Policy}

structure Observation (S D : Type) where
  operators : Idx → Option (NodeOperator D)
  settings : S
  keyspace : Keyspace
  keyspaceVersion : Nat
  migration : Migration
  maintenance : Option Address
  clusterVersion : Nat

def View.observe (view : View S D) : Observation S D where
  operators := view.nodeOperators.getByIdx
  settings := view.settings
  keyspace := view.keyspace
  keyspaceVersion := view.keyspaceVersion
  migration := view.migration
  maintenance := view.maintenance
  clusterVersion := view.clusterVersion

/-- The call is the last one of a migration. -/
def Completes (s : Contract.State) (call : Call) : Prop :=
  call = .completeMigration s.migration.id ∧ countSet s.migration.pullingOperatorBitmask = 1

section Replay

variable {s s' : Contract.State} {env : Env} {call : Call} {event : Contract.Event}
  {e : SmartContract.Event} {view view' : View S D}

theorem observe_eq_iff {state state' : Migration.State} (hv : Shows cfg s state view)
    (hv' : Shows cfg s state' view') (hversion : view.clusterVersion = view'.clusterVersion) :
    view.observe = view'.observe ↔ state = state' := by
  have hoperators : view.nodeOperators.getByIdx = view'.nodeOperators.getByIdx :=
    funext fun i => (hv.operators i).trans (hv'.operators i).symm
  have hsettings : view.settings = view'.settings :=
    Except.ok.inj (hv.settings.symm.trans hv'.settings)
  simp only [View.observe, Observation.mk.injEq, hoperators, hsettings, hv.keyspace, hv'.keyspace,
    hv.keyspaceVersion, hv'.keyspaceVersion, hv.migration, hv'.migration, hv.maintenance,
    hv'.maintenance, hversion, Migration.mk.injEq, true_and, and_true]

theorem completes_iff {i : Idx} (hi : i ∈ ones s.migration.pullingOperatorBitmask) :
    Completes s (.completeMigration s.migration.id) ↔
      unset s.migration.pullingOperatorBitmask i = 0 := by
  rw [Completes, countSet_eq_one_iff hi]
  exact and_iff_right rfl

/-- The last call of a migration leaves it completed in the view. -/
theorem replayedState_completes (h : Transition env s call s' event) (hlast : Completes s call)
    (state : Migration.State) : replayedState env call s' state = .completed := by
  obtain ⟨rfl, hone⟩ := hlast
  cases h with
  | @completePull slotIdx _ _ hmem hrest _ =>
    exact absurd ((countSet_eq_one_iff hmem).mp hone) hrest
  | completeMigration _ _ _ _ _ => rw [replayedState, if_pos rfl]

/-- All other calls leave the state of the migration that a snapshot shows. -/
theorem replayedState_of_not_completes (h : Transition env s call s' event)
    (htime : s.migration.startedAt ≤ env.timestamp) (hnot : ¬ Completes s call) :
    replayedState env call s' (migrationState s) = migrationState s' := by
  cases h with
  | startMigration _ _ _ _ _ _ _ _ _ => rfl
  | completePull _ _ _ hrest _ => exact if_neg hrest
  | completeMigration _ _ hmem hrest _ => exact absurd ((completes_iff hmem).mpr hrest) hnot
  | abortMigration _ _ _ _ =>
    rw [replayedState, migrationState_of_eq_zero rfl, if_pos htime]
  | _ => rfl

/-- After an accepted event, the new state can be read. -/
theorem readable_transition (hs : Sound policy s) (hread : Readable cfg s)
    (h : Transition env s call s' event) (haccept : Acceptable cfg env s call)
    (hlate : Completes s call → s.migration.abortedAt < s.migration.startedAt) :
    Readable cfg s' := by
  cases h with
  | @startMigration newKeyspace _ _ hidle hcount _ _ _ _ _ =>
    rw [policy.minOperators _ hs.settings] at hcount
    have hne := ne_zero_of_countSet hcount
    refine ⟨hread.settings, ?_, fun _ => ?_, haccept.2, fun h0 => absurd h0 hne⟩
    · rw [Contract.State.primaryKeyspace_started hidle hne]
      exact hread.primary
    · rw [Contract.State.targetKeyspace_started]
      exact haccept.1
  | @completePull slotIdx _ _ hmem hrest _ =>
    have hne := ne_zero_of_mem_ones hmem
    refine ⟨hread.settings, ?_, fun _ => hread.target hne, hread.startedAt,
      fun h0 => absurd h0 hrest⟩
    rw [Contract.State.primaryKeyspace_pulled hne hrest]
    exact hread.primary
  | @completeMigration slotIdx _ _ hmem hrest _ =>
    have hne := ne_zero_of_mem_ones hmem
    have hlt := hlate ((completes_iff hmem).mpr hrest)
    refine ⟨hread.settings, ?_, fun h => absurd rfl h, hread.startedAt,
      fun _ hle => absurd hle (Nat.not_le.mpr hlt)⟩
    rw [Contract.State.primaryKeyspace_idle rfl]
    exact hread.target hne
  | abortMigration _ hne _ _ =>
    refine ⟨hread.settings, ?_, fun h => absurd rfl h, hread.startedAt, fun _ _ => haccept⟩
    rw [Contract.State.primaryKeyspace_aborted hne rfl]
    exact hread.primary
  | updateSettings _ _ _ =>
    exact ⟨haccept, hread.primary, hread.target, hread.startedAt, hread.abortedAt⟩
  | _ => exact ⟨hread.settings, hread.primary, hread.target, hread.startedAt, hread.abortedAt⟩

/-- The last call of a migration leaves it over, however a snapshot reads its times. -/
theorem migrationState_completes (h : Transition env s call s' event) (hlast : Completes s call) :
    migrationState s' = if s.migration.startedAt ≤ s.migration.abortedAt then
      .aborted s.migration.abortedAt else .completed := by
  obtain ⟨rfl, hone⟩ := hlast
  cases h with
  | @completePull slotIdx _ _ hmem hrest _ =>
    exact absurd ((countSet_eq_one_iff hmem).mp hone) hrest
  | completeMigration _ _ _ _ _ => exact migrationState_of_eq_zero rfl

/-- Operators are still pulling before the last call of a migration. -/
theorem Completes.pulling (h : Completes s call) : s.migration.pullingOperatorBitmask ≠ 0 :=
  ne_zero_of_countSet h.2.ge

end Replay

/-! ## Replaying and refetching -/

/-- Settings that ask for five operators. -/
def replayPolicy : Contract.Policy where
  settings settings := settings.minOperators = 5
  keyspace _ := True
  minOperators _ h := h
  initial _ := trivial

/-- Replaying an accepted event shows what a new snapshot shows, unless the call completes a
migration that was started in the second the one before it was aborted in. -/
theorem replay_eq_refetch_iff (cfg : Config S D) {b : Contract.Block} {s' : Contract.State}
    {env : Env} {call : Call} {event : Contract.Event} {e : SmartContract.Event}
    {view view' : View S D} (hb : b.Reachable replayPolicy) (hallowed : replayPolicy.Allows call)
    (htime : b.time ≤ env.timestamp) (h : Contract.exec env call b.state = .ok (s', event))
    (he : SmartContract.Event.tryFrom env.timestamp event = some e)
    (hview : snapshot cfg b.state = .ok view) (haccept : view.applyEvent cfg e = .ok view') :
    (∃ refetched, snapshot cfg s' = .ok refetched ∧ view'.observe = refetched.observe) ↔
      ¬ (Completes b.state call ∧ b.state.migration.startedAt = b.state.migration.abortedAt) := by
  have hs := hb.state.sound
  have hs' := Contract.sound_step _ _ hs ⟨env, call, event, hallowed, h⟩
  have htimely := hb.timely
  have hread := (exists_snapshot_iff hs).mp ⟨view, hview⟩
  have hv := snapshot_mirrors hs.registry hs.membership hview
  rw [Contract.exec_iff] at h
  have hversion := clusterVersion_tryFrom h he
  obtain ⟨_, changed, hchange, rfl⟩ := View.applyEvent_eq_ok.mp haccept
  have hchanged := shows_change hs.registry hv.tracks h he hchange
  rw [show view.migration.state = migrationState b.state by rw [hv.migration]] at hchanged
  -- both views show the new state, so only the state of the migration can differ
  have hobserve : ∀ {refetched}, snapshot cfg s' = .ok refetched →
      (View.observe { changed with clusterVersion := e.clusterVersion } = refetched.observe ↔
        replayedState env call s' (migrationState b.state) = migrationState s') := by
    intro refetched hrefetched
    have hmirrors := snapshot_mirrors hs'.registry hs'.membership hrefetched
    refine observe_eq_iff ⟨hchanged.operators, hchanged.settings, hchanged.keyspace,
      hchanged.keyspaceVersion, hchanged.migration, hchanged.maintenance⟩ hmirrors.shows ?_
    rw [hmirrors.clusterVersion, hversion.1, hversion.2]
  constructor
  · rintro ⟨refetched, hrefetched, heq⟩ ⟨hlast, hsecond⟩
    rw [hobserve hrefetched, replayedState_completes h hlast, migrationState_completes h hlast,
      if_pos hsecond.le] at heq
    cases heq
  · intro hnot
    have hlate : Completes b.state call →
        b.state.migration.abortedAt < b.state.migration.startedAt := fun hlast =>
      lt_of_le_of_ne (htimely.restarted hlast.pulling) fun heq => hnot ⟨hlast, heq.symm⟩
    have hacceptable := (accepts_iff hs hread.primary hv.tracks h he).mp ⟨changed, hchange⟩
    obtain ⟨refetched, hrefetched⟩ :=
      (exists_snapshot_iff hs').mpr (readable_transition hs hread h hacceptable hlate)
    refine ⟨refetched, hrefetched, (hobserve hrefetched).mpr ?_⟩
    by_cases hlast : Completes b.state call
    · rw [replayedState_completes h hlast, migrationState_completes h hlast,
        if_neg (Nat.not_le.mpr (hlate hlast))]
    · exact replayedState_of_not_completes h (htimely.started.trans htime) hlast

/-! ## Aborting and starting again -/

/-- A migration is aborted at second 12 and started again at the given second, and four of its five
operators are done. -/
def restart (second : UInt8) : List (Env × Call) := [
  (transaction 99 11, .startMigration ⟨fill 5, 0⟩),
  (transaction 99 12, .abortMigration 1),
  (transaction 99 second, .startMigration ⟨fill 5, 0⟩),
  (transaction 0 14, .completeMigration 2),
  (transaction 1 14, .completeMigration 2),
  (transaction 2 15, .completeMigration 2),
  (transaction 3 15, .completeMigration 2)]

def restarted (second : UInt8) : Contract.Block :=
  result ⟨sixOperators, 10⟩ (Contract.execAll ⟨sixOperators, 10⟩ (restart second))

theorem reachable_restarted {second : UInt8} (h₁ : 12 ≤ second.toNat) (h₂ : second.toNat ≤ 14)
    (hok : (failure? (Contract.execAll ⟨sixOperators, 10⟩ (restart second))).isNone = true) :
    (restarted second).Reachable replayPolicy := by
  refine ⟨_, _, initial_sixOperators rfl, Contract.run_execAll ?_ ?_ (eq_ok_result hok _)⟩
  · simp [restart, Contract.Policy.Allows, replayPolicy]
  · simp [restart, transaction]
    omega

/-- The last operator is done, in a migration started a second after the abort. -/
theorem replay_eq_refetch_restarted :
    ∃ s' view view' refetched,
      Contract.exec (transaction 4 16) (.completeMigration 2) (restarted 13).state =
        .ok (s', .migrationCompleted 2 5 9) ∧
      snapshot acceptAll (restarted 13).state = .ok view ∧
      view.applyEvent acceptAll (.migrationCompleted 2 5 9) = .ok view' ∧
      snapshot acceptAll s' = .ok refetched ∧ view'.observe = refetched.observe := by
  have hexec : Contract.exec (transaction 4 16) (.completeMigration 2) (restarted 13).state =
      .ok (after (transaction 4 16) (.completeMigration 2) (restarted 13).state) :=
    eq_ok_result (by decide +kernel) _
  have hevent : after (transaction 4 16) (.completeMigration 2) (restarted 13).state =
      (_, .migrationCompleted 2 5 9) := Prod.ext rfl (by decide +kernel)
  have hreplay : ((snapshot acceptAll (restarted 13).state).toOption.bind fun view =>
      (view.applyEvent acceptAll (.migrationCompleted 2 5 9)).toOption).isSome = true := by
    decide +kernel
  obtain ⟨view', hview'⟩ := Option.isSome_iff_exists.mp hreplay
  obtain ⟨view, hview, haccept⟩ := Option.bind_eq_some_iff.mp hview'
  rw [toOption_eq_some] at hview haccept
  have hcall := hexec.trans (congrArg _ hevent)
  have hallowed : replayPolicy.Allows (.completeMigration 2) := trivial
  have hreach : (restarted 13).Reachable replayPolicy :=
    reachable_restarted (by decide) (by decide) (by decide +kernel)
  obtain ⟨refetched, hrefetched, heq⟩ := (replay_eq_refetch_iff acceptAll hreach hallowed
    (by decide +kernel) hcall rfl hview haccept).mpr fun h => absurd h.2 (by decide +kernel)
  exact ⟨_, view, view', refetched, hcall, hview, haccept, hrefetched, heq⟩

/-- When it was started in the second of the abort, a snapshot reports it as aborted. -/
theorem replay_ne_refetch_restarted :
    ∃ s' view view' refetched, (restarted 12).Reachable replayPolicy ∧
      Contract.exec (transaction 4 16) (.completeMigration 2) (restarted 12).state =
        .ok (s', .migrationCompleted 2 5 9) ∧
      snapshot acceptAll (restarted 12).state = .ok view ∧
      view.applyEvent acceptAll (.migrationCompleted 2 5 9) = .ok view' ∧
      snapshot acceptAll s' = .ok refetched ∧ view'.migration.state = .completed ∧
      refetched.migration.state = .aborted 12 := by
  have hexec : Contract.exec (transaction 4 16) (.completeMigration 2) (restarted 12).state =
      .ok (after (transaction 4 16) (.completeMigration 2) (restarted 12).state) :=
    eq_ok_result (by decide +kernel) _
  have hevent : after (transaction 4 16) (.completeMigration 2) (restarted 12).state =
      (_, .migrationCompleted 2 5 9) := Prod.ext rfl (by decide +kernel)
  have hreplay : ((snapshot acceptAll (restarted 12).state).toOption.bind fun view =>
      (view.applyEvent acceptAll (.migrationCompleted 2 5 9)).toOption).map (·.migration.state) =
        some .completed := by
    decide +kernel
  have hrefetch : (snapshot acceptAll
      (after (transaction 4 16) (.completeMigration 2) (restarted 12).state).1).toOption.map
        (·.migration.state) = some (.aborted 12) := by
    decide +kernel
  obtain ⟨view', hview', hcompleted⟩ := Option.map_eq_some_iff.mp hreplay
  obtain ⟨view, hview, haccept⟩ := Option.bind_eq_some_iff.mp hview'
  obtain ⟨refetched, hrefetched, haborted⟩ := Option.map_eq_some_iff.mp hrefetch
  rw [toOption_eq_some] at hview haccept hrefetched
  exact ⟨_, view, view', refetched,
    reachable_restarted (by decide) (by decide) (by decide +kernel),
    hexec.trans (congrArg _ hevent), hview, haccept, hrefetched, hcompleted, haborted⟩

end Cluster
end Wcn
