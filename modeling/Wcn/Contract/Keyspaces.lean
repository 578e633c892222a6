import Wcn.Contract.Invariants

/-!
# Wcn.Contract.Keyspaces

The two keyspaces of the contract over whole runs, by any calls of anybody.

* `Reverts v keyspace` — while a migration from version `v` is in progress, the slot of `v` is not
  written, so that an abort brings back both.
* `Remembers v keyspace` — the slot of version `v` is written only after the contract moved past `v`
  for good, or after a migration to `v` was aborted.
-/

namespace Wcn
namespace Contract

open Lib Bitmask

/-! ## Aborting a migration -/

/-- A call during a migration that does not end it. -/
def DuringMigration (s s' : State) : Prop :=
  s.migration.pullingOperatorBitmask ≠ 0 ∧ Calls anyCall s s' ∧
    s'.migration.pullingOperatorBitmask ≠ 0

/-- A migration is in progress from version `v`, whose keyspace is still stored. -/
structure Reverts (v : Nat) (keyspace : Keyspace) (s : State) : Prop where
  pulling : s.migration.pullingOperatorBitmask ≠ 0
  version : s.keyspaceVersion = v + 1
  stored : s.keyspaces (Fin.ofNat 2 v) = keyspace

section Abort

variable {s s' : State} {msg : Msg} {call : Call} {event : Event} {v : Nat} {keyspace : Keyspace}

theorem reverts_startMigration {newKeyspace : Keyspace}
    (h : Transition msg s (.startMigration newKeyspace) s' event)
    (hpulling : s'.migration.pullingOperatorBitmask ≠ 0) :
    Reverts s.keyspaceVersion (s.keyspaces s.keyspaceIdx) s' := by
  cases h with | startMigration _ _ _ _ _ _ _ _ _
  exact ⟨hpulling, rfl, Function.update_of_ne (parity_succ_ne _) ..⟩

theorem reverts_transition (hs : Reverts v keyspace s) (h : Transition msg s call s' event)
    (hpulling : s'.migration.pullingOperatorBitmask ≠ 0) : Reverts v keyspace s' := by
  cases h with
  | startMigration _ _ hidle _ _ _ _ _ _ => exact absurd hidle hs.pulling
  | completeMigration _ _ _ _ _ => exact absurd rfl hpulling
  | abortMigration _ _ _ _ => exact absurd rfl hpulling
  | _ => exact ⟨hpulling, hs.version, hs.stored⟩

theorem reverts_duringMigration : Invariant DuringMigration (Reverts v keyspace) := by
  rintro s s' hs ⟨_, ⟨msg, call, event, _, h⟩, hpulling⟩
  exact reverts_transition hs (exec_iff.mp h) hpulling

theorem reverts_abortMigration {id : Nat} (hs : Reverts v keyspace s)
    (h : Transition msg s (.abortMigration id) s' event) :
    s'.keyspaceVersion = v ∧ s'.keyspaces s'.keyspaceIdx = keyspace := by
  cases h with | abortMigration _ _ _ _
  have hversion : s.keyspaceVersion - 1 = v := by
    rw [hs.version]
    rfl
  refine ⟨hversion, ?_⟩
  rw [State.keyspaceIdx, hversion]
  exact hs.stored

/-- Only a migration in progress can be aborted. -/
theorem pulling_of_abortMigration {id : Nat} (h : Transition msg s (.abortMigration id) s' event) :
    s.migration.pullingOperatorBitmask ≠ 0 := by
  cases h with | abortMigration _ hpulling _ _
  exact hpulling

end Abort

/-- Both keyspaces are made of registered operators while a migration is in progress. -/
theorem Membership.keyspaces {s : State} (hs : Membership s)
    (hpulling : s.migration.pullingOperatorBitmask ≠ 0) (i : Fin 2) :
    ones (s.keyspaces i).operatorBitmask ⊆ ones s.operatorBitmask := by
  have hversion := hs.started hpulling
  by_cases hi : i = s.keyspaceIdx
  · rw [hi]
    exact hs.target hpulling
  · have hother : i = Fin.ofNat 2 (s.keyspaceVersion - 1) := by
      have hlt := i.isLt
      have hne : i.val ≠ s.keyspaceVersion % 2 := fun heq => hi (Fin.ext heq)
      refine Fin.ext ?_
      rw [Fin.val_ofNat]
      omega
    rw [hother, ← State.primaryKeyspace_migrating hpulling]
    exact hs.primary

theorem Membership.current {s : State} (hs : Membership s) :
    ones (s.keyspaces s.keyspaceIdx).operatorBitmask ⊆ ones s.operatorBitmask := by
  by_cases hpulling : s.migration.pullingOperatorBitmask = 0
  · have hprimary := hs.primary
    rwa [State.primaryKeyspace_idle hpulling] at hprimary
  · exact hs.target hpulling

/-- In every state reached by any calls after any `initialize`: the current keyspace consists of
registered operators, and there are enough of them. During a migration this also holds for the other
keyspace, the operators still pulling are some of the new keyspace's, and the version is not the
first one. Aborting the migration restores the version and the keyspace from before its start. -/
theorem keyspaces_of_registered {env : Env} {settings : Settings} {operators : List NodeOperator}
    {s₀ s : State} (hinit : initializeCluster env settings operators = .ok s₀)
    (hrun : Run (Calls anyCall) s₀ s) :
    ones (s.keyspaces s.keyspaceIdx).operatorBitmask ⊆ ones s.operatorBitmask ∧
    s.settings.minOperators ≤ countSet s.operatorBitmask ∧
    (s.migration.pullingOperatorBitmask ≠ 0 →
      (∀ i, ones (s.keyspaces i).operatorBitmask ⊆ ones s.operatorBitmask) ∧
      (ones s.migration.pullingOperatorBitmask).Nonempty ∧
      ones s.migration.pullingOperatorBitmask ⊆ ones (s.keyspaces s.keyspaceIdx).operatorBitmask ∧
      1 ≤ s.keyspaceVersion) ∧
    ∀ {start abort : Msg} {newKeyspace : Keyspace} {id : Nat} {s₁ s₂ s₃ : State}
      {started aborted : Event},
      exec start (.startMigration newKeyspace) s = .ok (s₁, started) →
      Run DuringMigration s₁ s₂ →
      exec abort (.abortMigration id) s₂ = .ok (s₃, aborted) →
      s₃.keyspaceVersion = s.keyspaceVersion ∧
        s₃.keyspaces s₃.keyspaceIdx = s.keyspaces s.keyspaceIdx := by
  have hs := membership_calls.run hrun (membership_initialized hinit)
  refine ⟨hs.current, hs.count, fun hpulling => ⟨hs.keyspaces hpulling, ?_, hs.pulling hpulling,
    Nat.one_le_iff_ne_zero.mpr (hs.started hpulling)⟩, ?_⟩
  · exact Finset.nonempty_iff_ne_empty.mpr (ones_eq_empty_iff.not.mpr hpulling)
  · intro start abort newKeyspace id s₁ s₂ s₃ started aborted hstart hduring habort
    rw [exec_iff] at hstart habort
    -- the migration was in progress right after its start: otherwise nothing is left to abort
    have hpulling : s₁.migration.pullingOperatorBitmask ≠ 0 := by
      rcases hduring.cases_head with rfl | ⟨_, hfirst, _⟩
      · exact pulling_of_abortMigration habort
      · exact hfirst.1
    have hreverts := reverts_startMigration hstart hpulling
    exact reverts_abortMigration (reverts_duringMigration.run hduring hreverts) habort

/-- A migration of the six operators' cluster to the first five of them, and its abort. -/
theorem keyspaces_of_registered_sixOperators :
    ∃ s₁ s₃ started aborted,
      exec (transaction 99 11) (.startMigration ⟨fill 5, 0⟩) sixOperators = .ok (s₁, started) ∧
      exec (transaction 99 12) (.abortMigration 1) s₁ = .ok (s₃, aborted) ∧
      s₃.keyspaceVersion = sixOperators.keyspaceVersion ∧
      s₃.keyspaces s₃.keyspaceIdx = sixOperators.keyspaces sixOperators.keyspaceIdx := by
  let migrating := (after (transaction 99 11) (.startMigration ⟨fill 5, 0⟩) sixOperators).1
  have hstart := exec_after (transaction 99 11) (.startMigration ⟨fill 5, 0⟩) sixOperators
    (by decide +kernel)
  have habort := exec_after (transaction 99 12) (.abortMigration 1) migrating (by decide +kernel)
  have hrestored := (keyspaces_of_registered initialize_sixOperators .refl).2.2.2 hstart .refl habort
  exact ⟨_, _, _, _, hstart, habort, hrestored.1, hrestored.2⟩

/-! ## A version and its keyspace -/

/-- A call other than the abort of a migration to version `v`. -/
def KeepsVersion (v : Nat) (s : State) : Call → Prop
  | .abortMigration _ => s.keyspaceVersion ≠ v
  | _ => True

/-- What is known of version `v` and its keyspace from a moment on when `v` was the version: the
contract is at `v`, it migrates away from `v`, or it will not return to `v`. -/
inductive Remembers (v : Nat) (keyspace : Keyspace) (s : State) : Prop where
  | current : s.keyspaceVersion = v → s.keyspaces s.keyspaceIdx = keyspace → Remembers v keyspace s
  | leaving : Reverts v keyspace s → Remembers v keyspace s
  | left : v < s.keyspaceVersion →
      (s.migration.pullingOperatorBitmask ≠ 0 → v + 1 < s.keyspaceVersion) → Remembers v keyspace s

section Versions

variable {s s' : State} {msg : Msg} {call : Call} {event : Event} {v : Nat} {keyspace : Keyspace}

theorem remembers_of_current (hversion : s.keyspaceVersion = v)
    (hstored : s.keyspaces s.keyspaceIdx = keyspace) (hkeeps : KeepsVersion v s call)
    (h : Transition msg s call s' event) : Remembers v keyspace s' := by
  subst hversion hstored
  cases h with
  | @startMigration newKeyspace _ _ _ _ _ _ _ _ _ =>
    by_cases hpulling : newKeyspace.operatorBitmask = 0
    · exact .left (Nat.lt_succ_self _) fun hne => absurd hpulling hne
    · exact .leaving ⟨hpulling, rfl, Function.update_of_ne (parity_succ_ne _) ..⟩
  | abortMigration _ _ _ _ => exact absurd rfl hkeeps
  | _ => exact .current rfl rfl

theorem remembers_of_leaving (hs : Reverts v keyspace s) (h : Transition msg s call s' event) :
    Remembers v keyspace s' := by
  cases h with
  | abortMigration hsender hpulling hversion hlt =>
    obtain ⟨hversion, hstored⟩ :=
      reverts_abortMigration hs (.abortMigration hsender hpulling hversion hlt)
    exact .current hversion hstored
  | completeMigration _ _ _ _ _ =>
    refine .left ?_ fun hne => absurd rfl hne
    rw [hs.version]
    exact Nat.lt_succ_self v
  | startMigration _ _ hidle _ _ _ _ _ _ => exact absurd hidle hs.pulling
  | completePull _ _ _ hrest _ => exact .leaving ⟨hrest, hs.version, hs.stored⟩
  | _ => exact .leaving ⟨hs.pulling, hs.version, hs.stored⟩

theorem remembers_of_left (hlt : v < s.keyspaceVersion)
    (hpulling : s.migration.pullingOperatorBitmask ≠ 0 → v + 1 < s.keyspaceVersion)
    (h : Transition msg s call s' event) : Remembers v keyspace s' := by
  cases h with
  | startMigration _ _ _ _ _ _ _ _ _ =>
    exact .left (Nat.lt_succ_of_lt hlt) fun _ => Nat.succ_lt_succ hlt
  | completePull _ _ hmem _ _ => exact .left hlt fun _ => hpulling (ne_zero_of_mem_ones hmem)
  | completeMigration _ _ _ _ _ => exact .left hlt fun hne => absurd rfl hne
  | abortMigration _ hne _ _ =>
    have hnext := hpulling hne
    exact .left (by dsimp only; omega) fun hne => absurd rfl hne
  | _ => exact .left hlt hpulling

theorem remembers_calls : Invariant (Calls (KeepsVersion v)) (Remembers v keyspace) := by
  rintro s s' hs ⟨msg, call, event, hkeeps, h⟩
  rw [exec_iff] at h
  cases hs with
  | current hversion hstored => exact remembers_of_current hversion hstored hkeeps h
  | leaving hreverts => exact remembers_of_leaving hreverts h
  | left hlt hpulling => exact remembers_of_left hlt hpulling h

end Versions

/-- At two moments with the same version the same keyspace is stored for it, when no migration to that
version was aborted in between. -/
theorem keyspace_of_version {s₁ s₂ : State} (hversion : s₁.keyspaceVersion = s₂.keyspaceVersion)
    (hrun : Run (Calls (KeepsVersion s₁.keyspaceVersion)) s₁ s₂) :
    s₁.keyspaces s₁.keyspaceIdx = s₂.keyspaces s₂.keyspaceIdx := by
  have hcurrent : Remembers s₁.keyspaceVersion (s₁.keyspaces s₁.keyspaceIdx) s₁ := .current rfl rfl
  cases remembers_calls.run hrun hcurrent with
  | current _ hstored => exact hstored.symm
  | leaving hreverts =>
    have hnext := hreverts.version
    omega
  | left hlt _ => omega

/-- Version 0 before a migration and after its abort. -/
theorem keyspace_of_version_aborted :
    ∃ s, Run (Calls (KeepsVersion 0)) sixOperators s ∧ s.migration.id = 1 ∧
      sixOperators.keyspaces sixOperators.keyspaceIdx = s.keyspaces s.keyspaceIdx := by
  let migrating := (after (transaction 99 11) (.startMigration ⟨fill 5, 0⟩) sixOperators).1
  let aborted := (after (transaction 99 12) (.abortMigration 1) migrating).1
  have hstart : Calls (KeepsVersion 0) sixOperators migrating := calls_after trivial (by decide +kernel)
  have hkeeps : KeepsVersion 0 migrating (.abortMigration 1) :=
    (by decide +kernel : migrating.keyspaceVersion ≠ 0)
  have habort : Calls (KeepsVersion 0) migrating aborted := calls_after hkeeps (by decide +kernel)
  have hrun : Run (Calls (KeepsVersion 0)) sixOperators aborted := .tail (.single hstart) habort
  have hversion : sixOperators.keyspaceVersion = 0 := by decide +kernel
  exact ⟨aborted, hrun, by decide +kernel,
    keyspace_of_version (hversion.trans (by decide +kernel)) (hversion ▸ hrun)⟩

/-- Version 1 of the six operators' cluster: the first five operators at first, and the last five
after the abort of that migration. -/
theorem keyspace_of_version_reused :
    ∃ s₁ s₂, Run (Calls anyCall) sixOperators s₁ ∧ Run (Calls anyCall) s₁ s₂ ∧
      s₁.keyspaceVersion = 1 ∧ s₂.keyspaceVersion = 1 ∧
      s₁.keyspaces s₁.keyspaceIdx = ⟨fill 5, 0⟩ ∧
      s₂.keyspaces s₂.keyspaceIdx = ⟨unset (fill 6) 0, 0⟩ ∧
      s₁.keyspaces s₁.keyspaceIdx ≠ s₂.keyspaces s₂.keyspaceIdx := by
  let first := (after (transaction 99 11) (.startMigration ⟨fill 5, 0⟩) sixOperators).1
  let calls : List (Env × Call) := [(transaction 99 12, .abortMigration 1),
    (transaction 99 13, .startMigration ⟨unset (fill 6) 0, 0⟩)]
  have hfirst : Calls anyCall sixOperators first := calls_after trivial (by decide +kernel)
  have hcalls : execAll ⟨first, 11⟩ calls = .ok (result ⟨first, 11⟩ (execAll ⟨first, 11⟩ calls)) :=
    eq_ok_result (by decide +kernel) _
  exact ⟨first, _, .single hfirst, anyCall_execAll hcalls, by decide +kernel, by decide +kernel,
    by decide +kernel, by decide +kernel, by decide +kernel⟩

end Contract
end Wcn
