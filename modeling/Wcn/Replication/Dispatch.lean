import Wcn.Replication.Coordinator
import Wcn.Replication.Replica
import Wcn.Cluster.Routing

/-!
# Wcn.Replication.Dispatch

What the coordinator sends for an operation: the keyspace version it puts on it, and the operators it
asks. It reads its clock twice, first for the version and then for the secondary replica set.

* `dispatch` — the part of `execute_callback` before any response. `dispatch_requests` connects it to
  the `requests` of the coordinator's loop.
* `pulled_writes_are_shadowed` — while a replica serves data pulls, it accepts no write that is not
  also sent to the new replicas.
-/

namespace Wcn
namespace Replication

open StorageApi Cluster Lib
open Contract (Address)
open Contract.Bitmask (Idx)

variable {B D T : Type}

structure Dispatched where
  keyspaceVersion : Nat
  operators : List Address
deriving DecidableEq

/-- An operator in both replica sets is asked once. -/
def askOnce {Op : Type} [DecidableEq Op] (primary secondary : List Op) : List Op :=
  primary ++ secondary.filter (· ∉ primary)

def requestedOperators (primary : List (NodeOperator D)) (secondary : Option (List (NodeOperator D))) :
    List Address :=
  askOnce (primary.map (·.id)) ((secondary.getD []).map (·.id))

/-- The replica set behind `secondary_quorum`. -/
def secondaryIfWrite (hash : Idx → Nat → UInt64) (view : View Settings D) (operation : Operation B)
    (key : UInt64) (now : OffsetDateTime) : Except Panic (Option (List (NodeOperator D))) :=
  if operation.isWrite then view.secondaryReplicaSet hash key now else .ok none

/-- No operators are asked for a client that is not authorized. -/
def dispatch (hash : Idx → Nat → UInt64) (view : View Settings D) (isAuthorized : Bool)
    (operation : Operation B) (key : UInt64) (t₁ t₂ : OffsetDateTime) :
    Except Panic (Option Dispatched) := do
  let keyspaceVersion ← view.effectiveKeyspaceVersion t₁
  if isAuthorized then
    let primary ← view.primaryReplicaSet hash key
    let secondary ← secondaryIfWrite hash view operation key t₂
    .ok (some ⟨keyspaceVersion, requestedOperators primary secondary⟩)
  else
    .ok none

section Dispatch

variable {hash : Idx → Nat → UInt64} {view : View Settings D} {operation : Operation B}
  {key : UInt64} {t₁ t₂ now : OffsetDateTime} {sent : Dispatched}

theorem dispatch_eq_some {isAuthorized : Bool} :
    dispatch hash view isAuthorized operation key t₁ t₂ = .ok (some sent) ↔
      isAuthorized = true ∧ view.effectiveKeyspaceVersion t₁ = .ok sent.keyspaceVersion ∧
      ∃ primary secondary, view.primaryReplicaSet hash key = .ok primary ∧
        secondaryIfWrite hash view operation key t₂ = .ok secondary ∧
        sent.operators = requestedOperators primary secondary := by
  obtain ⟨version, operators⟩ := sent
  unfold dispatch
  cases isAuthorized with
  | false => simp [bind_eq_ok]
  | true =>
    simp only [bind_eq_ok, if_true, Except.ok.injEq, Option.some.injEq, Dispatched.mk.injEq, true_and]
    constructor
    · rintro ⟨_, hversion, primary, hprimary, secondary, hsecondary, rfl, rfl⟩
      exact ⟨hversion, primary, secondary, hprimary, hsecondary, rfl⟩
    · rintro ⟨hversion, primary, secondary, hprimary, hsecondary, rfl⟩
      exact ⟨version, hversion, primary, hprimary, secondary, hsecondary, rfl, rfl⟩

theorem mem_askOnce {Op : Type} [DecidableEq Op] {primary secondary : List Op} {operator : Op}
    (h : operator ∈ secondary) : operator ∈ askOnce primary secondary := by
  by_cases hprimary : operator ∈ primary
  · exact List.mem_append_left _ hprimary
  · refine List.mem_append_right _ (List.mem_filter.mpr ⟨h, ?_⟩)
    exact decide_eq_true hprimary

/-- The ids of a replica set. -/
def replicaIds {keyspace : Keyspace} {operators : List (NodeOperator D)}
    (h : view.Replicates keyspace operators) : ReplicaSet Address where
  operators := operators.map (·.id)
  length_operators := (List.length_map _).trans h.length
  nodup := h.nodup

/-- In a routable view the coordinator sends, and to the operators that its loop waits for. -/
theorem dispatch_requests (hview : view.Routable) (heffect : view.StartTakesEffect)
    {version : Nat} (hversion : view.effectiveKeyspaceVersion t₁ = .ok version)
    (hash : Idx → Nat → UInt64) (operation : Operation B) (key : UInt64) (t₂ : OffsetDateTime) :
    ∃ (primary : ReplicaSet Address) (secondary : Option (ReplicaSet Address)),
      dispatch hash view true operation key t₁ t₂ =
        .ok (some ⟨version, requests operation primary secondary⟩) := by
  obtain ⟨primary, hprimary, hreplicates⟩ := View.primaryReplicaSet_ok hview hash key
  have hsend : ∀ {secondary set}, secondaryIfWrite hash view operation key t₂ = .ok secondary →
      requests operation (replicaIds hreplicates) set = requestedOperators primary secondary →
      dispatch hash view true operation key t₁ t₂ =
        .ok (some ⟨version, requests operation (replicaIds hreplicates) set⟩) := by
    intro secondary set hsecondary hrequests
    exact dispatch_eq_some.mpr ⟨rfl, hversion, primary, secondary, hprimary, hsecondary, hrequests⟩
  have hnone : requests operation (replicaIds hreplicates) none = requestedOperators primary none := by
    simp [requests, secondaryInUse, requestedOperators, askOnce, replicaIds]
  cases hwrite : operation.isWrite with
  | false => exact ⟨_, none, hsend (by rw [secondaryIfWrite, hwrite]; rfl) hnone⟩
  | true =>
    have hasked : secondaryIfWrite hash view operation key t₂ =
        view.secondaryReplicaSet hash key t₂ := by
      rw [secondaryIfWrite, if_pos hwrite]
    obtain ⟨shadowing, hshadowing⟩ := View.exists_shadowing heffect t₂
    cases shadowing with
    | false =>
      have hsecondary := View.secondaryReplicaSet_of_not_shadowing hash key hshadowing
      exact ⟨_, none, hsend (hasked.trans hsecondary) hnone⟩
    | true =>
      obtain ⟨_, secondary, _, hsecondary, hreplicates'⟩ :=
        View.secondaryReplicaSet_shadowing hview hash key hshadowing
      refine ⟨_, some (replicaIds hreplicates'), hsend (hasked.trans hsecondary) ?_⟩
      simp [requests, secondaryInUse, requestedOperators, askOnce, replicaIds, hwrite]

/-! ## Data pulls -/

variable {v : Nat}

/-- A replica that serves pulls accepts one version. -/
theorem validateStorageOperation_of_pull (h : view.validateDataPull v now = .ok true) (w : Nat) :
    view.validateStorageOperation w now = .ok (decide (w = v)) := by
  obtain ⟨hprogress, htime, rfl⟩ := View.validateDataPull_eq_true.mp h
  have hchange := View.versionChange_of_progress hprogress
  have hmax := now.le_max
  have hnonneg := view.effectiveAt_nonneg view.migration.startedAt
  have hrange : minNanos ≤ -maxNanos := by decide
  have hleeway : (0 : Int) < Migration.pullDataLeewayTime := by decide
  rw [View.validateStorageOperation_eq_ok hchange]
  refine ⟨by dsimp only; omega, by dsimp only; omega, ?_⟩
  rw [decide_eq_decide, if_neg (by dsimp only; omega), if_neg (by dsimp only; omega)]

/-- A coordinator puts the new version on operations once the start has propagated, and from then on
it asks the secondary replicas. -/
theorem shadowed_of_version (hprogress : view.migration.isInProgress = true)
    (htag : view.effectiveAt view.migration.startedAt ≤ t₁.nanos) (hclock : t₁.nanos ≤ t₂.nanos)
    (hwrite : operation.isWrite = true) {isAuthorized : Bool}
    (hsent : dispatch hash view isAuthorized operation key t₁ t₂ = .ok (some sent)) :
    ∃ secondary, view.secondaryReplicaSet hash key t₂ = .ok (some secondary) ∧
      ∀ operator ∈ secondary, operator.id ∈ sent.operators := by
  obtain ⟨_, _, primary, secondary, _, hsecondary, hoperators⟩ := dispatch_eq_some.mp hsent
  rw [secondaryIfWrite, if_pos hwrite] at hsecondary
  have hshadowing : view.isSecondaryKeyspaceShadowingOn t₂ = .ok true := by
    rw [View.isSecondaryKeyspaceShadowingOn, if_pos hprogress, View.hasPropagated_eq_true]
    exact htag.trans hclock
  obtain ⟨secondary, rfl⟩ := View.exists_of_shadowing hshadowing hsecondary
  refine ⟨secondary, hsecondary, fun operator hoperator => ?_⟩
  rw [hoperators]
  exact mem_askOnce (List.mem_map_of_mem hoperator)

/-- The clock of a coordinator within the skew is past the start, too. -/
theorem effectiveAt_le_of_pull (h : view.validateDataPull v now = .ok true)
    (hskew : |t₁.nanos - now.nanos| ≤ view.settings.clockSkew) :
    view.effectiveAt view.migration.startedAt ≤ t₁.nanos := by
  obtain ⟨_, htime, _⟩ := View.validateDataPull_eq_true.mp h
  obtain ⟨hlow, _⟩ := abs_le.mp hskew
  have hleeway : (0 : Int) < Migration.pullDataLeewayTime := by decide
  omega

theorem effectiveKeyspaceVersion_of_pull (h : view.validateDataPull v now = .ok true)
    (htag : view.effectiveAt view.migration.startedAt ≤ t₁.nanos) :
    view.effectiveKeyspaceVersion t₁ = .ok v := by
  obtain ⟨hprogress, _, rfl⟩ := View.validateDataPull_eq_true.mp h
  rw [View.effectiveKeyspaceVersion_eq_ok (View.versionChange_of_progress hprogress), if_pos htag]
  exact ⟨htag.trans t₁.le_max, rfl⟩

/-- An operation with the accepted version was tagged after the start had propagated, however long
ago that was. -/
theorem effectiveAt_le_of_version (hraised : view.Raised)
    (hprogress : view.migration.isInProgress = true)
    (h : view.effectiveKeyspaceVersion t₁ = .ok view.keyspaceVersion) :
    view.effectiveAt view.migration.startedAt ≤ t₁.nanos := by
  have hsettled := (View.effectiveKeyspaceVersion_eq_current hraised).mp h
  have hpropagated := hsettled _ (View.versionChange_of_progress hprogress)
  rw [View.hasPropagated_eq_true] at hpropagated
  exact hpropagated

end Dispatch

/-- No write escapes a data pull. The last part is about a write that the replica accepts while it
serves pulls, whenever the coordinator put the version on it. -/
theorem pulled_writes_are_shadowed (view : View Settings D) {now : OffsetDateTime} {v : Nat}
    (hpull : view.validateDataPull v now = .ok true) :
    (∀ w, view.validateStorageOperation w now = .ok (decide (w = v))) ∧
    (∀ t₁ t₂ : OffsetDateTime, |t₁.nanos - now.nanos| ≤ view.settings.clockSkew →
      t₁.nanos ≤ t₂.nanos → ∀ (hash : Idx → Nat → UInt64) (operation : Operation B) (key : UInt64),
        view.effectiveKeyspaceVersion t₁ = .ok v ∧
        (∀ isAuthorized sent, dispatch hash view isAuthorized operation key t₁ t₂ = .ok (some sent) →
          sent.keyspaceVersion = v ∧ (operation.isWrite = true → ∃ secondary,
            view.secondaryReplicaSet hash key t₂ = .ok (some secondary) ∧
            ∀ operator ∈ secondary, operator.id ∈ sent.operators)) ∧
        (view.Routable → ∃ sent, dispatch hash view true operation key t₁ t₂ = .ok (some sent))) ∧
    (view.Raised → ∀ t₁ t₂ : OffsetDateTime, t₁.nanos ≤ t₂.nanos →
      ∀ (hash : Idx → Nat → UInt64) (operation : Operation B) (key : UInt64) isAuthorized sent,
        dispatch hash view isAuthorized operation key t₁ t₂ = .ok (some sent) →
        operation.isWrite = true →
        view.validateStorageOperation sent.keyspaceVersion now = .ok true → ∃ secondary,
          view.secondaryReplicaSet hash key t₂ = .ok (some secondary) ∧
          ∀ operator ∈ secondary, operator.id ∈ sent.operators) := by
  have hprogress := (View.validateDataPull_eq_true.mp hpull).1
  have hcurrent := (View.validateDataPull_eq_true.mp hpull).2.2
  refine ⟨validateStorageOperation_of_pull hpull, ?_, ?_⟩
  · intro t₁ t₂ hskew hclock hash operation key
    have htag := effectiveAt_le_of_pull hpull hskew
    have hversion := effectiveKeyspaceVersion_of_pull hpull htag
    refine ⟨hversion, ?_, ?_⟩
    · intro isAuthorized sent hsent
      refine ⟨?_, fun hwrite => shadowed_of_version hprogress htag hclock hwrite hsent⟩
      have hsentVersion := (dispatch_eq_some.mp hsent).2.1
      exact Except.ok.inj (hsentVersion.symm.trans hversion)
    · intro hroutable
      have heffect : view.StartTakesEffect := fun _ => htag.trans t₁.le_max
      obtain ⟨primary, secondary, hsent⟩ :=
        dispatch_requests hroutable heffect hversion hash operation key t₂
      exact ⟨_, hsent⟩
  · intro hraised t₁ t₂ hclock hash operation key isAuthorized sent hsent hwrite haccept
    rw [validateStorageOperation_of_pull hpull] at haccept
    have hsentVersion := (dispatch_eq_some.mp hsent).2.1
    rw [of_decide_eq_true (Except.ok.inj haccept), ← hcurrent] at hsentVersion
    have htag := effectiveAt_le_of_version hraised hprogress hsentVersion
    exact shadowed_of_version hprogress htag hclock hwrite hsent

/-- Data of the six operators' migration is pulled from second 18.5 on. A write of second 18 goes to the
first operator, too, which has joined the replicas of its key. -/
theorem pulled_writes_are_shadowed_migrating :
    ∃ view sent, snapshot usualSettings migrating = .ok view ∧
      view.validateDataPull 1 (instant 18500) = .ok true ∧
      dispatch preferLater view true (.set ⟨"value", 100, 7⟩) 0 (instant 18000) (instant 18000) =
        .ok (some sent) ∧
      sent.keyspaceVersion = 1 ∧ 1 ∈ sent.operators ∧
      view.validateStorageOperation 1 (instant 18500) = .ok true := by
  obtain ⟨view, hview, hsettings, hprogress, hstarted, hversion⟩ := snapshot_migrating
  have hpull : view.validateDataPull 1 (instant 18500) = .ok true := by
    rw [View.validateDataPull_eq_true, View.effectiveAt, hsettings, hstarted]
    exact ⟨hprogress, by decide, hversion⟩
  have hclocks : |(instant 18000).nanos - (instant 18500).nanos| ≤ view.settings.clockSkew := by
    rw [hsettings]
    decide
  obtain ⟨haccept, hcoordinator, _⟩ := pulled_writes_are_shadowed view hpull
  obtain ⟨_, hshadowed, hsends⟩ := hcoordinator (instant 18000) (instant 18000) hclocks
    (Int.le_refl _) preferLater (.set ⟨"value", 100, 7⟩) 0
  obtain ⟨sent, hsent⟩ := hsends (routable_migrating hview)
  obtain ⟨htag, hwrite⟩ := hshadowed true sent hsent
  obtain ⟨secondary, hsecondary, hmem⟩ := hwrite rfl
  have hjoined : 1 ∈ secondary.map NodeOperator.id := by
    rw [(replicas_migrating hview).2 _ _ hsecondary]
    decide
  obtain ⟨operator, hoperator, hid⟩ := List.mem_map.mp hjoined
  exact ⟨view, sent, hview, hpull, hsent, htag, hid ▸ hmem operator hoperator, haccept 1⟩

end Replication
end Wcn
