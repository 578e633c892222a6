import Wcn.StorageApi
import Wcn.Cluster.Versions

/-!
# Wcn.Replication.Replica

The replica, as `crates/replication/src/replica` has it: it passes operations and data pulls on to its
database when its view accepts their keyspace version.

`executeRef_effectiveKeyspaceVersion` is why coordinators are not turned down: a replica accepts what
a coordinator with the same view puts on an operation, as long as their clocks differ by no more than
the skew.
-/

namespace Wcn
namespace Replication

open StorageApi Cluster Lib

variable {B D T : Type}

namespace Replica

/-- How `execute_ref` reports an error of the database; `display` is the error's text. -/
def databaseError (display : Error → String) (err : Error) : Error :=
  { Error.new .internal with message := some ("Database error: " ++ display err) }

def executeRef (display : Error → String) (view : View Settings D) (keyspaceVersion : Option Nat)
    (now : OffsetDateTime) (database : Response B) : Except Panic (Response B) := do
  let accepted ←
    match keyspaceVersion with
    | some version => view.validateStorageOperation version now
    | none => .ok false
  if accepted then
    .ok (database.mapError (databaseError display))
  else
    .ok (.error .keyspaceVersionMismatch)

/-- The stream of data items is the database's. -/
def readData (view : View Settings D) (keyspaceVersion : Nat) (now : OffsetDateTime)
    (database : Except Error T) : Except Panic (Except Error T) := do
  let accepted ← view.validateDataPull keyspaceVersion now
  if accepted then
    .ok database
  else
    .ok (.error .keyspaceVersionMismatch)

end Replica

/-! ## Versions under skewed clocks -/

section Skew

variable {view : View Settings D} {t₁ t₂ : OffsetDateTime}

/-- The times around the last change of version can be represented. -/
def TimesFit (view : View Settings D) : Prop :=
  ∀ change, view.versionChange = some change →
    minNanos ≤ view.effectiveAt change.transitionTime - view.settings.clockSkew ∧
    view.effectiveAt change.transitionTime + view.settings.clockSkew ≤ maxNanos

theorem validate_effectiveKeyspaceVersion (hfits : TimesFit view)
    (hskew : |t₁.nanos - t₂.nanos| ≤ view.settings.clockSkew) :
    ∃ version, view.effectiveKeyspaceVersion t₁ = .ok version ∧
      view.validateStorageOperation version t₂ = .ok true := by
  obtain ⟨hlow, hhigh⟩ := abs_le.mp hskew
  cases hchange : view.versionChange with
  | none =>
    refine ⟨view.keyspaceVersion, View.effectiveKeyspaceVersion_of_none hchange, ?_⟩
    rw [View.validateStorageOperation_of_none hchange, decide_eq_true rfl]
  | some change =>
    obtain ⟨hmin, hmax⟩ := hfits change hchange
    refine ⟨_, (View.effectiveKeyspaceVersion_eq_ok hchange).mpr ⟨by omega, rfl⟩, ?_⟩
    rw [View.validateStorageOperation_eq_ok hchange]
    refine ⟨hmin, hmax, (decide_eq_true ?_).symm⟩
    by_cases hnew : view.effectiveAt change.transitionTime ≤ t₁.nanos
    · -- the coordinator has switched, so the replica's clock is not before the frame
      rw [if_pos hnew, if_neg (by omega)]
      split_ifs
      · exact List.mem_cons_of_mem _ List.mem_cons_self
      · rfl
    · -- it has not, so the replica's clock is not past the frame
      rw [if_neg hnew]
      split_ifs
      · rfl
      · exact List.mem_cons_self
      · omega

end Skew

/-- No false mismatch within the allowed skew. -/
theorem executeRef_effectiveKeyspaceVersion (view : View Settings D) (hfits : TimesFit view)
    {t₁ t₂ : OffsetDateTime} (hskew : |t₁.nanos - t₂.nanos| ≤ view.settings.clockSkew) :
    ∃ version, view.effectiveKeyspaceVersion t₁ = .ok version ∧
      view.validateStorageOperation version t₂ = .ok true ∧
      ∀ (display : Error → String) (database : Response B),
        Replica.executeRef display view (some version) t₂ database =
          .ok (database.mapError (Replica.databaseError display)) := by
  obtain ⟨version, htag, haccept⟩ := validate_effectiveKeyspaceVersion hfits hskew
  refine ⟨version, htag, haccept, fun display database => ?_⟩
  exact bind_eq_ok.mpr ⟨true, haccept, rfl⟩

/-- Half a second before the migration of the six operators takes effect, a replica accepts the
version of a coordinator whose clock says that it has. -/
theorem executeRef_migrating :
    ∃ view, snapshot usualSettings migrating = .ok view ∧
      view.effectiveKeyspaceVersion (instant 16000) = .ok 1 ∧
      Replica.executeRef (fun _ => "") view (some 1) (instant 15500) (.ok (Output.cardinality 3)) =
        .ok (Except.ok (Output.cardinality 3) : Response String) := by
  obtain ⟨view, hview, hsettings, hprogress, hstarted, hcurrent⟩ := snapshot_migrating
  have hchange := View.versionChange_of_progress hprogress
  have hversion : view.effectiveKeyspaceVersion (instant 16000) = .ok 1 := by
    rw [View.effectiveKeyspaceVersion_eq_ok hchange, View.effectiveAt, hsettings, hstarted, hcurrent]
    decide
  have hfits : TimesFit view := by
    intro change h
    cases hchange.symm.trans h
    rw [View.effectiveAt, hsettings, hstarted]
    dsimp only
    decide
  have hskew : |(instant 16000).nanos - (instant 15500).nanos| ≤ view.settings.clockSkew := by
    rw [hsettings]
    decide
  obtain ⟨version, htag, _, hexecute⟩ :=
    executeRef_effectiveKeyspaceVersion (B := String) view hfits hskew
  cases hversion.symm.trans htag
  exact ⟨view, hview, hversion, hexecute _ _⟩

end Replication
end Wcn
