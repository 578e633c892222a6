import Wcn.Cluster.Settings
import Wcn.Cluster.Stored

/-!
# Wcn.Cluster.Versions

What a view says at a given time: the keyspace version in effect, the versions of storage operations
and data pulls it accepts, and whether writes are shadowed.

Versions are natural numbers. A migration in progress has raised the version, so `ver - 1` is the
version before it.

* `VersionChange` — the last start or abort of a migration: it replaces one version by another.
* `effectiveAt` — when an event takes effect, in exact integers. The functions of the source are
  specified by comparing it with the clock.
-/

namespace Wcn
namespace Cluster

open Lib
open Contract (transaction sixOperators after)
open Contract.Bitmask (fill)

variable {D : Type}

/-- Extra time before data is pulled, for operations in flight. -/
def Migration.pullDataLeewayTime : Duration := .fromSecs 2

structure VersionChange where
  old : Nat
  new : Nat
  transitionTime : Nat
deriving DecidableEq

namespace View

/-- `has_event_propagated` for a time of the view. -/
def hasPropagated (view : View Settings D) (timestamp : Nat) (now : OffsetDateTime) :
    Except Panic Bool := do
  let emittedAt ← OffsetDateTime.fromUnixTimestamp timestamp
  view.settings.hasEventPropagated emittedAt now

def isSecondaryKeyspaceShadowingOn (view : View Settings D) (now : OffsetDateTime) :
    Except Panic Bool :=
  if view.migration.isInProgress then
    view.hasPropagated view.migration.startedAt now
  else
    .ok false

def dataPullScheduledAfter (view : View Settings D) : Except Panic (Option OffsetDateTime) :=
  if view.migration.isInProgress then do
    let startedAt ← OffsetDateTime.fromUnixTimestamp view.migration.startedAt
    let time ← startedAt.add view.settings.eventPropagationLatency
    let time ← time.add view.settings.clockSkew
    let time ← time.add Migration.pullDataLeewayTime
    .ok (some time)
  else
    .ok none

/-- `View::keyspace_version`. -/
def effectiveKeyspaceVersion (view : View Settings D) (now : OffsetDateTime) : Except Panic Nat :=
  match view.migration.state with
  | .started _ _ => do
    let propagated ← view.hasPropagated view.migration.startedAt now
    .ok (if propagated then view.keyspaceVersion else view.keyspaceVersion - 1)
  | .aborted time => do
    let propagated ← view.hasPropagated time now
    .ok (if propagated then view.keyspaceVersion else view.keyspaceVersion + 1)
  | .completed => .ok view.keyspaceVersion

def versionChange (view : View Settings D) : Option VersionChange :=
  match view.migration.state with
  | .started _ _ => some ⟨view.keyspaceVersion - 1, view.keyspaceVersion, view.migration.startedAt⟩
  | .aborted time => some ⟨view.keyspaceVersion + 1, view.keyspaceVersion, time⟩
  | .completed => none

def validateStorageOperation (view : View Settings D) (keyspaceVersion : Nat)
    (now : OffsetDateTime) : Except Panic Bool :=
  match view.versionChange with
  | none => .ok (decide (keyspaceVersion = view.keyspaceVersion))
  | some change => do
    let emittedAt ← OffsetDateTime.fromUnixTimestamp change.transitionTime
    let transitionTime ← view.settings.eventPropagationTime emittedAt
    let transitionTimeFrame ← view.settings.clockSkewTimeFrame transitionTime
    if now.nanos < transitionTimeFrame.1.nanos then
      .ok (decide (keyspaceVersion = change.old))
    else if now.nanos ≤ transitionTimeFrame.2.nanos then
      .ok (decide (keyspaceVersion ∈ [change.old, change.new]))
    else
      .ok (decide (keyspaceVersion = change.new))

def validateDataPull (view : View Settings D) (keyspaceVersion : Nat) (now : OffsetDateTime) :
    Except Panic Bool := do
  let scheduledAfter ← view.dataPullScheduledAfter
  match scheduledAfter with
  | none => .ok false
  | some scheduledAfter =>
    .ok (decide (scheduledAfter.nanos ≤ now.nanos ∧ view.keyspaceVersion = keyspaceVersion))

/-- When an event emitted at the given second takes effect. -/
def effectiveAt (view : View Settings D) (timestamp : Nat) : Int :=
  Duration.fromSecs timestamp + view.settings.eventPropagationLatency

/-! ## In exact integers -/

section Times

variable {view : View Settings D} {now : OffsetDateTime} {timestamp version : Nat}

theorem minNanos_neg : minNanos < 0 := by decide

theorem effectiveAt_nonneg (view : View Settings D) (timestamp : Nat) :
    0 ≤ view.effectiveAt timestamp := by
  unfold effectiveAt
  omega

theorem fromSecs_le_maxNanos (h : view.effectiveAt timestamp ≤ maxNanos) :
    (Duration.fromSecs timestamp : Int) ≤ maxNanos := by
  unfold effectiveAt at h
  omega

theorem hasPropagated_eq_ok {propagated : Bool} :
    view.hasPropagated timestamp now = .ok propagated ↔
      view.effectiveAt timestamp ≤ maxNanos ∧
      propagated = decide (view.effectiveAt timestamp ≤ now.nanos) := by
  simp only [hasPropagated, OffsetDateTime.fromUnixTimestamp, Settings.hasEventPropagated,
    Settings.eventPropagationTime, OffsetDateTime.add, bind_eq_ok, OffsetDateTime.ofNanos_eq_ok,
    Except.ok.injEq]
  constructor
  · rintro ⟨emittedAt, hemitted, time, htime, rfl⟩
    rw [hemitted] at htime
    rw [effectiveAt, ← htime]
    exact ⟨time.le_max, rfl⟩
  · rintro ⟨hmax, rfl⟩
    have hmin := minNanos_neg
    have hnonneg := view.effectiveAt_nonneg timestamp
    have hemitted := fromSecs_le_maxNanos hmax
    exact ⟨⟨_, by omega, hemitted⟩, rfl, ⟨_, by omega, hmax⟩, rfl, rfl⟩

theorem hasPropagated_of_gt (h : maxNanos < view.effectiveAt timestamp) :
    view.hasPropagated timestamp now = .error .timeOutOfRange := by
  unfold hasPropagated
  cases hemitted : OffsetDateTime.fromUnixTimestamp timestamp with
  | error panic =>
    unfold OffsetDateTime.fromUnixTimestamp OffsetDateTime.ofNanos at hemitted
    split_ifs at hemitted
    cases hemitted
    rfl
  | ok emittedAt =>
    have hnanos := OffsetDateTime.ofNanos_eq_ok.mp hemitted
    have hgt : maxNanos < emittedAt.nanos + view.settings.eventPropagationLatency := by
      rw [hnanos]
      exact h
    show (do
      let time ← emittedAt.add view.settings.eventPropagationLatency
      .ok (decide (time.nanos ≤ now.nanos))) = Except.error Panic.timeOutOfRange
    rw [OffsetDateTime.add, OffsetDateTime.ofNanos_of_gt hgt]
    rfl

/-- A choice by whether an event has taken effect. -/
theorem bind_hasPropagated {before after : Nat} :
    (do
      let propagated ← view.hasPropagated timestamp now
      .ok (if propagated then after else before)) = .ok version ↔
      view.effectiveAt timestamp ≤ maxNanos ∧
      version = if view.effectiveAt timestamp ≤ now.nanos then after else before := by
  simp only [bind_eq_ok, hasPropagated_eq_ok, Except.ok.injEq]
  constructor
  · rintro ⟨_, ⟨hmax, rfl⟩, rfl⟩
    simp [hmax]
  · rintro ⟨hmax, rfl⟩
    exact ⟨_, ⟨hmax, rfl⟩, by simp⟩

theorem effectiveKeyspaceVersion_of_none (h : view.versionChange = none) :
    view.effectiveKeyspaceVersion now = .ok view.keyspaceVersion := by
  unfold versionChange at h
  unfold effectiveKeyspaceVersion
  cases hstate : view.migration.state with
  | started keyspace pulling => simp [hstate] at h
  | aborted time => simp [hstate] at h
  | completed => rfl

/-- The new version is in effect once the change has propagated. -/
theorem effectiveKeyspaceVersion_eq_ok {change : VersionChange}
    (h : view.versionChange = some change) :
    view.effectiveKeyspaceVersion now = .ok version ↔
      view.effectiveAt change.transitionTime ≤ maxNanos ∧
      version = if view.effectiveAt change.transitionTime ≤ now.nanos then change.new
        else change.old := by
  unfold versionChange at h
  unfold effectiveKeyspaceVersion
  cases hstate : view.migration.state with
  | started keyspace pulling =>
    simp only [hstate, Option.some.injEq] at h
    subst h
    exact bind_hasPropagated
  | aborted time =>
    simp only [hstate, Option.some.injEq] at h
    subst h
    exact bind_hasPropagated
  | completed => simp [hstate] at h

theorem validateStorageOperation_of_none (h : view.versionChange = none) :
    view.validateStorageOperation version now = .ok (decide (version = view.keyspaceVersion)) := by
  rw [validateStorageOperation, h]

/-- Around the change both versions are accepted. -/
theorem validateStorageOperation_eq_ok {change : VersionChange} {accepted : Bool}
    (h : view.versionChange = some change) :
    view.validateStorageOperation version now = .ok accepted ↔
      minNanos ≤ view.effectiveAt change.transitionTime - view.settings.clockSkew ∧
      view.effectiveAt change.transitionTime + view.settings.clockSkew ≤ maxNanos ∧
      accepted = decide (
        if now.nanos < view.effectiveAt change.transitionTime - view.settings.clockSkew then
          version = change.old
        else if now.nanos ≤ view.effectiveAt change.transitionTime + view.settings.clockSkew then
          version ∈ [change.old, change.new]
        else
          version = change.new) := by
  rw [validateStorageOperation, h]
  simp only [OffsetDateTime.fromUnixTimestamp, Settings.eventPropagationTime,
    Settings.clockSkewTimeFrame, OffsetDateTime.add, OffsetDateTime.sub, bind_eq_ok,
    OffsetDateTime.ofNanos_eq_ok, Except.ok.injEq]
  constructor
  · rintro ⟨emittedAt, hemitted, time, htime, _, ⟨start, hstart, finish, hfinish, rfl⟩, h⟩
    rw [hemitted] at htime
    rw [effectiveAt, ← htime, ← hstart, ← hfinish]
    refine ⟨start.min_le, finish.le_max, ?_⟩
    split_ifs at h ⊢ <;> exact (Except.ok.inj h).symm
  · rintro ⟨hmin, hmax, rfl⟩
    have hlow := minNanos_neg
    have hnonneg := view.effectiveAt_nonneg change.transitionTime
    have heffective : view.effectiveAt change.transitionTime ≤ maxNanos := by omega
    have hemitted := fromSecs_le_maxNanos heffective
    refine ⟨⟨_, by omega, hemitted⟩, rfl, ⟨_, by omega, heffective⟩, rfl, _,
      ⟨⟨_, hmin, by omega⟩, rfl, ⟨_, by omega, hmax⟩, rfl, rfl⟩, ?_⟩
    dsimp only
    split_ifs <;> rfl

/-- Data is pulled once both skewed clocks and the leeway time have passed the change. -/
theorem validateDataPull_eq_true :
    view.validateDataPull version now = .ok true ↔ view.migration.isInProgress = true ∧
      view.effectiveAt view.migration.startedAt + view.settings.clockSkew +
        Migration.pullDataLeewayTime ≤ now.nanos ∧
      view.keyspaceVersion = version := by
  unfold validateDataPull dataPullScheduledAfter
  by_cases hprogress : view.migration.isInProgress = true
  · rw [if_pos hprogress]
    simp only [OffsetDateTime.fromUnixTimestamp, OffsetDateTime.add, bind_eq_ok,
      OffsetDateTime.ofNanos_eq_ok, Except.ok.injEq]
    constructor
    · rintro ⟨_, ⟨startedAt, hstarted, time₁, htime₁, time₂, htime₂, time₃, htime₃, rfl⟩, h⟩
      rw [hstarted] at htime₁
      rw [htime₁] at htime₂
      rw [htime₂] at htime₃
      obtain ⟨hle, hversion⟩ := of_decide_eq_true (Except.ok.inj h)
      rw [htime₃] at hle
      exact ⟨hprogress, hle, hversion⟩
    · rintro ⟨_, hle, hversion⟩
      have hmax := now.le_max
      have hlow := minNanos_neg
      have hnonneg := view.effectiveAt_nonneg view.migration.startedAt
      have heffective : view.effectiveAt view.migration.startedAt ≤ maxNanos := by omega
      have hstarted := fromSecs_le_maxNanos heffective
      refine ⟨_, ⟨⟨_, by omega, hstarted⟩, rfl, ⟨_, by omega, heffective⟩, rfl,
        ⟨view.effectiveAt view.migration.startedAt + view.settings.clockSkew, by omega, by omega⟩, rfl,
        ⟨view.effectiveAt view.migration.startedAt + view.settings.clockSkew +
          Migration.pullDataLeewayTime, by omega, by omega⟩, rfl, rfl⟩, ?_⟩
      exact congrArg Except.ok (decide_eq_true ⟨hle, hversion⟩)
  · rw [if_neg hprogress]
    exact iff_of_false (by simp [bind, Except.bind]) fun h => hprogress h.1

end Times

/-! ## The version in effect when an event arrives -/

section Propagation

variable {cfg : Config Settings D} {view view' : View Settings D} {event : SmartContract.Event}
  {now : OffsetDateTime} {a : Nat}

/-- The change of version that the view shows has propagated. -/
def Settled (view : View Settings D) (now : OffsetDateTime) : Prop :=
  ∀ change, view.versionChange = some change → view.hasPropagated change.transitionTime now = .ok true

theorem hasPropagated_eq_true {timestamp : Nat} :
    view.hasPropagated timestamp now = .ok true ↔ view.effectiveAt timestamp ≤ now.nanos := by
  rw [hasPropagated_eq_ok, eq_comm, decide_eq_true_eq]
  exact ⟨And.right, fun h => ⟨h.trans now.le_max, h⟩⟩

theorem versionChange_of_progress (h : view.migration.isInProgress = true) :
    view.versionChange =
      some ⟨view.keyspaceVersion - 1, view.keyspaceVersion, view.migration.startedAt⟩ := by
  unfold Migration.isInProgress at h
  unfold versionChange
  cases hstate : view.migration.state with
  | started keyspace pulling => rfl
  | aborted time => simp [hstate] at h
  | completed => simp [hstate] at h

theorem new_of_versionChange {change : VersionChange} (h : view.versionChange = some change) :
    change.new = view.keyspaceVersion := by
  unfold versionChange at h
  split at h
  · cases h
    rfl
  · cases h
    rfl
  · cases h

theorem old_ne_new (hraised : view.Raised) {change : VersionChange}
    (h : view.versionChange = some change) : change.old ≠ change.new := by
  unfold versionChange at h
  split at h
  · next hstate =>
    cases h
    have hpos : 1 ≤ view.keyspaceVersion := hraised (by rw [Migration.isInProgress, hstate])
    dsimp only
    omega
  · cases h
    exact Nat.succ_ne_self _
  · cases h

theorem effectiveKeyspaceVersion_eq_current (hraised : view.Raised) :
    view.effectiveKeyspaceVersion now = .ok view.keyspaceVersion ↔ view.Settled now := by
  cases hchange : view.versionChange with
  | none =>
    refine iff_of_true (effectiveKeyspaceVersion_of_none hchange) fun change h => ?_
    rw [hchange] at h
    cases h
  | some change =>
    have hne := old_ne_new hraised hchange
    rw [Settled, effectiveKeyspaceVersion_eq_ok hchange, ← new_of_versionChange hchange]
    simp only [hchange, Option.some.injEq, forall_eq', hasPropagated_eq_true]
    constructor
    · rintro ⟨_, h⟩
      by_contra hnot
      rw [if_neg hnot] at h
      exact hne h.symm
    · intro h
      exact ⟨h.trans now.le_max, (if_pos h).symm⟩

/-- The events that change the version or the keyspace it is for, with the second of their block. -/
def EmittedAt (a : Nat) : SmartContract.Event → Prop
  | .migrationStarted _ _ time _ => time = a
  | .migrationAborted _ time _ => time = a
  | .migrationCompleted _ _ _ => True
  | _ => False

/-- Whether the time at which the event takes effect can be computed. A completion has none. -/
def TakesEffect (view : View Settings D) (a : Nat) : SmartContract.Event → Prop
  | .migrationCompleted _ _ _ => True
  | _ => view.effectiveAt a ≤ maxNanos

theorem effectiveKeyspaceVersion_pending {old new version : Nat}
    (hsettings : view'.settings = view.settings)
    (hchange : view'.versionChange = some ⟨old, new, a⟩) (hold : old = view.keyspaceVersion)
    (hnow : now.nanos < view.effectiveAt a) :
    view'.effectiveKeyspaceVersion now = .ok version ↔
      view.effectiveAt a ≤ maxNanos ∧ version = view.keyspaceVersion := by
  have htime : view'.effectiveAt a = view.effectiveAt a := by
    rw [effectiveAt, effectiveAt, hsettings]
  rw [effectiveKeyspaceVersion_eq_ok hchange, htime, if_neg (Int.not_le.mpr hnow), hold]

/-- Until it takes effect, an event leaves the version in effect that was recorded before. -/
theorem effectiveKeyspaceVersion_applied {version : Nat} (hraised : view.Raised)
    (h : view.applyEvent cfg event = .ok view') (hevent : EmittedAt a event)
    (hnow : now.nanos < view.effectiveAt a) :
    view'.effectiveKeyspaceVersion now = .ok version ↔
      TakesEffect view a event ∧ version = view.keyspaceVersion := by
  obtain ⟨_, changed, hchange, rfl⟩ := applyEvent_eq_ok.mp h
  cases event with
  | migrationStarted id keyspace time clusterVersion =>
    obtain ⟨_, _, _, _, _, _, _, rfl⟩ := migrationStarted_eq_ok.mp hchange
    cases hevent
    simp only [TakesEffect]
    exact effectiveKeyspaceVersion_pending rfl rfl (Nat.add_sub_cancel _ 1) hnow
  | migrationAborted id time clusterVersion =>
    obtain ⟨hprogress, _, _, rfl⟩ := migrationAborted_eq_ok.mp hchange
    cases hevent
    have hold : view.keyspaceVersion - 1 + 1 = view.keyspaceVersion :=
      Nat.sub_add_cancel (hraised hprogress)
    simp only [TakesEffect]
    exact effectiveKeyspaceVersion_pending rfl rfl hold hnow
  | migrationCompleted id operatorId clusterVersion =>
    obtain ⟨_, _, _, _, _, _, _, rfl⟩ := migrationCompleted_eq_ok.mp hchange
    rw [effectiveKeyspaceVersion_of_none rfl, Except.ok.injEq, eq_comm]
    exact (and_iff_right trivial).symm
  | _ => cases hevent

/-- Every accepted start, abort and completion of a migration, applied before it takes effect. -/
theorem effectiveKeyspaceVersion_kept_iff (cfg : Config Settings D) (hview : Reached cfg view)
    (haccept : view.applyEvent cfg event = .ok view') (hevent : EmittedAt a event)
    (hnow : now.nanos < Duration.fromSecs a + view.settings.eventPropagationLatency) :
    (∃ version, view.effectiveKeyspaceVersion now = .ok version ∧
      view'.effectiveKeyspaceVersion now = .ok version) ↔
      view.Settled now ∧ TakesEffect view a event := by
  have hraised := hview.raised
  simp only [effectiveKeyspaceVersion_applied hraised haccept hevent hnow]
  rw [← effectiveKeyspaceVersion_eq_current hraised]
  constructor
  · rintro ⟨_, hversion, htakes, rfl⟩
    exact ⟨hversion, htakes⟩
  · rintro ⟨hversion, htakes⟩
    exact ⟨_, hversion, htakes, rfl⟩

end Propagation

end View

/-! ## A migration of six operators -/

/-- Decodes all settings as the default ones, and accepts all operator data. -/
def usualSettings : Config Settings Unit := ⟨fun _ => .ok .default, fun _ => some ()⟩

/-- So many milliseconds after the epoch. -/
def instant (millis : UInt16) : OffsetDateTime where
  nanos := Duration.fromMillis millis.toNat
  min_le := by
    have hlow := View.minNanos_neg
    omega
  le_max := by
    have hlt := millis.toNat_lt
    unfold Duration.fromMillis maxNanos Migration.maxTimestamp
    omega

/-- The first migration, started at second 11. -/
def migrating : Contract.State :=
  (after (transaction 99 11) (.startMigration ⟨fill 5, 0⟩) sixOperators).1

theorem run_migrating : Run (Contract.Calls Contract.anyCall) sixOperators migrating :=
  .single (Contract.calls_after trivial (by decide +kernel))

theorem snapshot_migrating :
    ∃ view, snapshot usualSettings migrating = .ok view ∧ view.settings = .default ∧
      view.migration.isInProgress = true ∧ view.migration.startedAt = 11 ∧
      view.keyspaceVersion = 1 := by
  have hsnapshot : (snapshot usualSettings migrating).toOption.map (fun view =>
      (view.settings, view.migration.isInProgress, view.migration.startedAt, view.keyspaceVersion)) =
      some (.default, true, 11, 1) := by
    decide +kernel
  obtain ⟨view, hview, hobserved⟩ := Option.map_eq_some_iff.mp hsnapshot
  rw [toOption_eq_some] at hview
  simp only [Prod.mk.injEq] at hobserved
  exact ⟨view, hview, hobserved⟩

/-- When the migration has taken effect before it is aborted, the abort is no change for now. -/
theorem effectiveKeyspaceVersion_kept_late :
    ∃ view view', snapshot usualSettings migrating = .ok view ∧
      view.applyEvent usualSettings (.migrationAborted 1 20 3) = .ok view' ∧
      ∃ version, view.effectiveKeyspaceVersion (instant 21000) = .ok version ∧
        view'.effectiveKeyspaceVersion (instant 21000) = .ok version := by
  obtain ⟨view, hview, hsettings, hprogress, hstarted, hversion⟩ := snapshot_migrating
  have hreplay : ((snapshot usualSettings migrating).toOption.bind fun view =>
      (view.applyEvent usualSettings (.migrationAborted 1 20 3)).toOption).isSome = true := by
    decide +kernel
  rw [hview] at hreplay
  obtain ⟨view', hview'⟩ := Option.isSome_iff_exists.mp hreplay
  have haccept : view.applyEvent usualSettings (.migrationAborted 1 20 3) = .ok view' :=
    toOption_eq_some.mp hview'
  refine ⟨view, view', hview, haccept, ?_⟩
  refine (View.effectiveKeyspaceVersion_kept_iff usualSettings (a := 20) (.fetched hview) haccept rfl
    ?_).mpr ⟨?_, ?_⟩
  · rw [hsettings]
    decide
  · intro change h
    cases (View.versionChange_of_progress hprogress).symm.trans h
    rw [View.hasPropagated_eq_true, View.effectiveAt, hsettings, hstarted]
    dsimp only
    decide
  · show view.effectiveAt 20 ≤ maxNanos
    rw [View.effectiveAt, hsettings]
    decide

/-- An abort right after the start puts the new version into effect. It was not in effect before. -/
theorem effectiveKeyspaceVersion_lost :
    ∃ s s' view view', Run (Contract.Calls Contract.anyCall) sixOperators s ∧
      Contract.exec (transaction 99 12) (.abortMigration 1) s = .ok (s', .migrationAborted 1 3) ∧
      SmartContract.Event.tryFrom 12 (.migrationAborted 1 3) = some (.migrationAborted 1 12 3) ∧
      snapshot usualSettings s = .ok view ∧
      view.applyEvent usualSettings (.migrationAborted 1 12 3) = .ok view' ∧
      view.settings.eventPropagationLatency = .fromSecs 5 ∧
      view.effectiveKeyspaceVersion (instant 13000) = .ok 0 ∧
      view'.effectiveKeyspaceVersion (instant 13000) = .ok 1 := by
  have hexec : Contract.exec (transaction 99 12) (.abortMigration 1) migrating =
      .ok (after (transaction 99 12) (.abortMigration 1) migrating) :=
    Contract.exec_after _ _ _ (by decide +kernel)
  have hevent : after (transaction 99 12) (.abortMigration 1) migrating =
      (_, .migrationAborted 1 3) := Prod.ext rfl (by decide +kernel)
  have hviews : ((snapshot usualSettings migrating).toOption.bind fun view =>
      (view.applyEvent usualSettings (.migrationAborted 1 12 3)).toOption.map fun view' =>
        (view.settings.eventPropagationLatency,
          (view.effectiveKeyspaceVersion (instant 13000)).toOption,
          (view'.effectiveKeyspaceVersion (instant 13000)).toOption)) =
      some (.fromSecs 5, some 0, some 1) := by
    decide +kernel
  obtain ⟨view, hview, hviews⟩ := Option.bind_eq_some_iff.mp hviews
  obtain ⟨view', haccept, hobserved⟩ := Option.map_eq_some_iff.mp hviews
  obtain ⟨hlatency, hversions⟩ := Prod.mk.inj hobserved
  obtain ⟨hbefore, hafter⟩ := Prod.mk.inj hversions
  rw [toOption_eq_some] at hview haccept hbefore hafter
  exact ⟨migrating, _, view, view', run_migrating, hexec.trans (congrArg _ hevent), rfl, hview,
    haccept, hlatency, hbefore, hafter⟩

end Cluster
end Wcn
