import Wcn.Contract.Invariants

/-!
# Wcn.Contract.Authority

What the contract requires of a call (`Enabled`), and what accounts can do to it without its owner.
Let `senders` be a set of accounts with neither
the owner nor the account that ownership was offered to. Whatever they call, in whatever order:

* the owner, the settings, the members and the keyspaces stay as they are;
* an operator's data changes, and its pull completes, only if it is one of them;
* a maintenance that somebody else holds goes on;
* nothing changes at all if none of them is an operator.

`Powerless` lists it, `powerless_transition` is the step and `without_owner` the run.
-/

namespace Wcn
namespace Contract

open Lib Bitmask

/-! ## What a call requires -/

/-- What a call requires of a state. -/
def Enabled (env : Msg) (s : State) : Call → Prop
  | .startMigration newKeyspace =>
    env.sender = s.owner ∧ s.maintenanceSlot = 0 ∧ s.migration.pullingOperatorBitmask = 0 ∧
      s.settings.minOperators ≤ countSet newKeyspace.operatorBitmask ∧
      ones newKeyspace.operatorBitmask ⊆ ones s.operatorBitmask ∧
      s.keyspaces s.keyspaceIdx ≠ newKeyspace ∧ s.migration.id + 1 < 2 ^ 64 ∧
      s.keyspaceVersion + 1 < 2 ^ 64 ∧ s.version + 1 < 2 ^ 128
  | .completeMigration id =>
    id = s.migration.id ∧ s.IsOperator env.sender ∧
      s.operatorSlotIndexes env.sender ∈ ones s.migration.pullingOperatorBitmask ∧
      s.version + 1 < 2 ^ 128
  | .abortMigration id =>
    id = s.migration.id ∧ env.sender = s.owner ∧ s.migration.pullingOperatorBitmask ≠ 0 ∧
      s.keyspaceVersion ≠ 0 ∧ s.version + 1 < 2 ^ 128
  | .addNodeOperator operator =>
    env.sender = s.owner ∧ s.operatorBitmask ≠ BitVec.allOnes 256 ∧ operator.addr ≠ 0 ∧
      s.operatorSlotIndexes operator.addr = 0 ∧ (s.operatorSlots 0).addr ≠ operator.addr ∧
      s.ValidData operator.data ∧ s.version + 1 < 2 ^ 128
  | .updateNodeOperatorData operatorAddress newData =>
    (env.sender = operatorAddress ∨ env.sender = s.owner) ∧ s.ValidData newData ∧
      s.IsOperator operatorAddress ∧ s.version + 1 < 2 ^ 128
  | .removeNodeOperator operatorAddr =>
    env.sender = s.owner ∧ s.IsOperator operatorAddr ∧
      s.settings.minOperators < countSet s.operatorBitmask ∧
      (s.migration.pullingOperatorBitmask ≠ 0 →
        ∀ i, s.operatorSlotIndexes operatorAddr ∉ ones (s.keyspaces i).operatorBitmask) ∧
      (s.migration.pullingOperatorBitmask = 0 →
        s.operatorSlotIndexes operatorAddr ∉ ones (s.keyspaces s.keyspaceIdx).operatorBitmask) ∧
      s.version + 1 < 2 ^ 128
  | .setMaintenance true =>
    s.maintenanceSlot = 0 ∧ (env.sender = s.owner ∨ s.IsOperator env.sender) ∧
      s.version + 1 < 2 ^ 128
  | .setMaintenance false =>
    (s.maintenanceSlot = env.sender ∨ env.sender = s.owner) ∧
      (env.sender = s.owner ∨ s.IsOperator env.sender) ∧ s.version + 1 < 2 ^ 128
  | .updateSettings newSettings =>
    env.sender = s.owner ∧ newSettings.minOperators ≤ countSet s.operatorBitmask ∧
      s.version + 1 < 2 ^ 128
  | .transferOwnership _ => env.sender = s.owner
  | .acceptOwnership => s.pendingOwner = env.sender
  | .renounceOwnership => env.sender = s.owner

theorem enabled_of_transition {env : Msg} {s s' : State} {call : Call} {event : Event}
    (h : Transition env s call s' event) : Enabled env s call := by
  cases h with
  | startMigration h₁ h₂ h₃ h₄ h₅ h₆ h₇ h₈ h₉ => exact ⟨h₁, h₂, h₃, h₄, h₅, h₆, h₇, h₈, h₉⟩
  | completePull hidx hop hmem _ hv => exact ⟨rfl, hop, hidx ▸ hmem, hv⟩
  | completeMigration hidx hop hmem _ hv => exact ⟨rfl, hop, hidx ▸ hmem, hv⟩
  | abortMigration h₁ h₂ h₃ hv => exact ⟨rfl, h₁, h₂, h₃, hv⟩
  | addNodeOperator h₁ h₂ h₃ h₄ h₅ h₆ hv => exact ⟨h₁, h₂, h₃, h₄, h₅, h₆, hv⟩
  | updateNodeOperatorData h₁ h₂ hidx hop hv =>
    subst hidx
    exact ⟨h₁, h₂, hop, hv⟩
  | removeNodeOperator h₁ hidx hop h₂ h₃ h₄ hv =>
    subst hidx
    exact ⟨h₁, hop, h₂, h₃, h₄, hv⟩
  | startMaintenance h₁ h₂ hv => exact ⟨h₁, h₂, hv⟩
  | finishMaintenance h₁ h₂ hv => exact ⟨h₁, h₂, hv⟩
  | updateSettings h₁ h₂ hv => exact ⟨h₁, h₂, hv⟩
  | transferOwnership h => exact h
  | acceptOwnership h => exact h
  | renounceOwnership h => exact h

theorem Enabled.transition {env : Msg} {s : State} {call : Call} (h : Enabled env s call) :
    ∃ s' event, Transition env s call s' event := by
  cases call with
  | startMigration newKeyspace =>
    obtain ⟨h₁, h₂, h₃, h₄, h₅, h₆, h₇, h₈, h₉⟩ := h
    exact ⟨_, _, .startMigration h₁ h₂ h₃ h₄ h₅ h₆ h₇ h₈ h₉⟩
  | completeMigration id =>
    obtain ⟨rfl, hop, hmem, hv⟩ := h
    by_cases hlast : unset s.migration.pullingOperatorBitmask (s.operatorSlotIndexes env.sender) = 0
    · exact ⟨_, _, .completeMigration rfl hop hmem hlast hv⟩
    · exact ⟨_, _, .completePull rfl hop hmem hlast hv⟩
  | abortMigration id =>
    obtain ⟨rfl, h₁, h₂, h₃, hv⟩ := h
    exact ⟨_, _, .abortMigration h₁ h₂ h₃ hv⟩
  | addNodeOperator operator =>
    obtain ⟨h₁, h₂, h₃, h₄, h₅, h₆, hv⟩ := h
    exact ⟨_, _, .addNodeOperator h₁ h₂ h₃ h₄ h₅ h₆ hv⟩
  | updateNodeOperatorData operatorAddress newData =>
    obtain ⟨h₁, h₂, hop, hv⟩ := h
    exact ⟨_, _, .updateNodeOperatorData h₁ h₂ rfl hop hv⟩
  | removeNodeOperator operatorAddr =>
    obtain ⟨h₁, hop, h₂, h₃, h₄, hv⟩ := h
    exact ⟨_, _, .removeNodeOperator h₁ rfl hop h₂ h₃ h₄ hv⟩
  | setMaintenance active =>
    cases active with
    | true =>
      obtain ⟨h₁, h₂, hv⟩ := h
      exact ⟨_, _, .startMaintenance h₁ h₂ hv⟩
    | false =>
      obtain ⟨h₁, h₂, hv⟩ := h
      exact ⟨_, _, .finishMaintenance h₁ h₂ hv⟩
  | updateSettings newSettings =>
    obtain ⟨h₁, h₂, hv⟩ := h
    exact ⟨_, _, .updateSettings h₁ h₂ hv⟩
  | transferOwnership newOwner => exact ⟨_, _, .transferOwnership h⟩
  | acceptOwnership => exact ⟨_, _, .acceptOwnership h⟩
  | renounceOwnership => exact ⟨_, _, .renounceOwnership h⟩

theorem enabled_iff {env : Msg} {s : State} {call : Call} :
    (∃ s' event, exec env call s = .ok (s', event)) ↔ Enabled env s call := by
  simp only [exec_iff]
  constructor
  · rintro ⟨s', event, h⟩
    exact enabled_of_transition h
  · exact Enabled.transition

/-- During a migration, the keyspace in use and the one it leads to are all there are. -/
theorem State.forall_keyspaces {s : State} {p : Keyspace → Prop}
    (hpulling : s.migration.pullingOperatorBitmask ≠ 0) (hstarted : s.keyspaceVersion ≠ 0) :
    (∀ i, p (s.keyspaces i)) ↔ p s.primaryKeyspace ∧ p s.targetKeyspace := by
  rw [State.primaryKeyspace_migrating hpulling, State.targetKeyspace]
  obtain ⟨version, hversion⟩ := Nat.exists_eq_succ_of_ne_zero hstarted
  rw [hversion, Nat.succ_sub_one]
  constructor
  · exact fun h => ⟨h _, h _⟩
  · rintro ⟨hprimary, htarget⟩ i
    have hi : i = Fin.ofNat 2 version ∨ i = Fin.ofNat 2 (version + 1) := by
      simp only [Fin.ext_iff, Fin.val_ofNat]
      omega
    rcases hi with rfl | rfl
    · exact hprimary
    · exact htarget

/-! ## Without the owner -/

/-- A successful call by one of the senders. -/
def CallsBy (senders : Address → Prop) (s s' : State) : Prop :=
  ∃ (env : Env) (call : Call) (event : Event), senders env.sender ∧ exec env call s = .ok (s', event)

/-- What holds of a state that the senders have brought about. -/
structure Powerless (senders : Address → Prop) (s₀ s : State) : Prop where
  owner : s.owner = s₀.owner
  pendingOwner : s.pendingOwner = s₀.pendingOwner
  settings : s.settings = s₀.settings
  operatorBitmask : s.operatorBitmask = s₀.operatorBitmask
  operatorSlotIndexes : s.operatorSlotIndexes = s₀.operatorSlotIndexes
  addr : ∀ i, (s.operatorSlots i).addr = (s₀.operatorSlots i).addr
  data : ∀ i, ¬ senders (s₀.operatorSlots i).addr → s.operatorSlots i = s₀.operatorSlots i
  keyspaces : s.keyspaces = s₀.keyspaces
  keyspaceVersion : s.keyspaceVersion = s₀.keyspaceVersion
  migration : s.migration =
    { s₀.migration with pullingOperatorBitmask := s.migration.pullingOperatorBitmask }
  pulling : ones s.migration.pullingOperatorBitmask ⊆ ones s₀.migration.pullingOperatorBitmask
  pulled : ∀ i ∈ ones s₀.migration.pullingOperatorBitmask,
    i ∉ ones s.migration.pullingOperatorBitmask → senders (s₀.operatorSlots i).addr
  maintenance : s₀.maintenanceSlot ≠ 0 → ¬ senders s₀.maintenanceSlot →
    s.maintenanceSlot = s₀.maintenanceSlot
  maintainer : s.maintenanceSlot = s₀.maintenanceSlot ∨ s.maintenanceSlot = 0 ∨
    senders s.maintenanceSlot ∧ s₀.IsOperator s.maintenanceSlot
  version : s₀.version ≤ s.version
  outsiders : s = s₀ ∨ ∃ a, senders a ∧ s₀.IsOperator a

section Steps

variable {senders : Address → Prop} {s₀ s s' : State}

theorem Powerless.refl (senders : Address → Prop) (s : State) : Powerless senders s s where
  owner := rfl
  pendingOwner := rfl
  settings := rfl
  operatorBitmask := rfl
  operatorSlotIndexes := rfl
  addr _ := rfl
  data _ _ := rfl
  keyspaces := rfl
  keyspaceVersion := rfl
  migration := rfl
  pulling := Finset.Subset.refl _
  pulled _ hi hnot := absurd hi hnot
  maintenance _ _ := rfl
  maintainer := .inl rfl
  version := Nat.le_refl _
  outsiders := .inl rfl

theorem Powerless.isOperator (h : Powerless senders s₀ s) {a : Address} :
    s.IsOperator a ↔ s₀.IsOperator a := by
  rw [State.IsOperator, State.IsOperator, h.operatorSlotIndexes, h.addr]

/-- The operator that a completed pull is for is the sender. -/
theorem Powerless.complete (h : Powerless senders s₀ s) {a : Address} (hsender : senders a)
    (hop : s.IsOperator a) {pulling : BitVec 256}
    (hpulling : ones pulling = (ones s.migration.pullingOperatorBitmask).erase (s.operatorSlotIndexes a)) :
    Powerless senders s₀
      { s with
        migration := { s.migration with pullingOperatorBitmask := pulling }
        version := s.version + 1 } where
  owner := h.owner
  pendingOwner := h.pendingOwner
  settings := h.settings
  operatorBitmask := h.operatorBitmask
  operatorSlotIndexes := h.operatorSlotIndexes
  addr := h.addr
  data := h.data
  keyspaces := h.keyspaces
  keyspaceVersion := h.keyspaceVersion
  migration := by
    dsimp only
    rw [h.migration]
  pulling := by
    dsimp only
    rw [hpulling]
    exact (Finset.erase_subset _ _).trans h.pulling
  pulled i hi hnot := by
    dsimp only at hnot
    rw [hpulling, Finset.mem_erase, not_and_or, not_not] at hnot
    rcases hnot with rfl | hnot
    · rw [← h.addr, hop]
      exact hsender
    · exact h.pulled i hi hnot
  maintenance := h.maintenance
  maintainer := h.maintainer
  version := h.version.trans (Nat.le_succ _)
  outsiders := .inr ⟨a, hsender, h.isOperator.mp hop⟩

theorem Powerless.update (h : Powerless senders s₀ s) {a : Address} (hsender : senders a)
    (hop : s.IsOperator a) (newData : Bytes) :
    Powerless senders s₀
      { s with
        operatorSlots := Function.update s.operatorSlots (s.operatorSlotIndexes a) ⟨a, newData⟩
        version := s.version + 1 } where
  owner := h.owner
  pendingOwner := h.pendingOwner
  settings := h.settings
  operatorBitmask := h.operatorBitmask
  operatorSlotIndexes := h.operatorSlotIndexes
  addr i := by
    by_cases hi : i = s.operatorSlotIndexes a
    · subst hi
      dsimp only
      rw [Function.update_self, ← h.addr, hop]
    · dsimp only
      rw [Function.update_of_ne hi]
      exact h.addr i
  data i hi := by
    by_cases heq : i = s.operatorSlotIndexes a
    · subst heq
      rw [← h.addr, hop] at hi
      exact absurd hsender hi
    · dsimp only
      rw [Function.update_of_ne heq]
      exact h.data i hi
  keyspaces := h.keyspaces
  keyspaceVersion := h.keyspaceVersion
  migration := h.migration
  pulling := h.pulling
  pulled := h.pulled
  maintenance := h.maintenance
  maintainer := h.maintainer
  version := h.version.trans (Nat.le_succ _)
  outsiders := .inr ⟨a, hsender, h.isOperator.mp hop⟩

theorem Powerless.maintain (h : Powerless senders s₀ s) {a slot : Address} (hsender : senders a)
    (hop : s.IsOperator a) (hkept : s.maintenanceSlot ≠ 0 → s.maintenanceSlot = a)
    (hslot : slot = 0 ∨ slot = a) :
    Powerless senders s₀ { s with maintenanceSlot := slot, version := s.version + 1 } where
  owner := h.owner
  pendingOwner := h.pendingOwner
  settings := h.settings
  operatorBitmask := h.operatorBitmask
  operatorSlotIndexes := h.operatorSlotIndexes
  addr := h.addr
  data := h.data
  keyspaces := h.keyspaces
  keyspaceVersion := h.keyspaceVersion
  migration := h.migration
  pulling := h.pulling
  pulled := h.pulled
  maintenance hne hnot := by
    have hheld := h.maintenance hne hnot
    rw [← hheld] at hne hnot
    exact absurd (hkept hne ▸ hsender) hnot
  maintainer := by
    rcases hslot with rfl | rfl
    · exact .inr (.inl rfl)
    · exact .inr (.inr ⟨hsender, h.isOperator.mp hop⟩)
  version := h.version.trans (Nat.le_succ _)
  outsiders := .inr ⟨a, hsender, h.isOperator.mp hop⟩

theorem powerless_transition {env : Msg} {call : Call} {event : Event} (h : Powerless senders s₀ s)
    (howner : ¬ senders s₀.owner) (hpending : ¬ senders s₀.pendingOwner)
    (hsender : senders env.sender) (hstep : Transition env s call s' event) :
    Powerless senders s₀ s' := by
  have hnotOwner : env.sender ≠ s.owner := fun heq => howner (h.owner ▸ heq ▸ hsender)
  cases hstep with
  | startMigration hsent => exact absurd hsent hnotOwner
  | abortMigration hsent => exact absurd hsent hnotOwner
  | addNodeOperator hsent => exact absurd hsent hnotOwner
  | removeNodeOperator hsent => exact absurd hsent hnotOwner
  | updateSettings hsent => exact absurd hsent hnotOwner
  | transferOwnership hsent => exact absurd hsent hnotOwner
  | renounceOwnership hsent => exact absurd hsent hnotOwner
  | acceptOwnership hsent =>
    rw [h.pendingOwner] at hsent
    exact absurd (hsent ▸ hsender) hpending
  | completePull hslot hop _ _ _ =>
    subst hslot
    exact h.complete hsender hop (ones_unset _ _)
  | completeMigration hslot hop _ hlast _ =>
    subst hslot
    exact h.complete hsender hop (hlast ▸ ones_unset _ _)
  | updateNodeOperatorData hsent _ hslot hop _ =>
    obtain rfl := hsent.resolve_right hnotOwner
    subst hslot
    exact h.update hsender hop _
  | startMaintenance hfree hsent _ =>
    exact h.maintain hsender (hsent.resolve_left hnotOwner) (fun hne => absurd hfree hne) (.inr rfl)
  | finishMaintenance hheld hsent _ =>
    exact h.maintain hsender (hsent.resolve_left hnotOwner)
      (fun _ => hheld.resolve_right hnotOwner) (.inl rfl)

end Steps

/-- Without the owner and the account that ownership was offered to, accounts change only what is
their own. -/
theorem without_owner {senders : Address → Prop} {s₀ s : State} (howner : ¬ senders s₀.owner)
    (hpending : ¬ senders s₀.pendingOwner) (hrun : Run (CallsBy senders) s₀ s) :
    Powerless senders s₀ s := by
  induction hrun with
  | refl => exact .refl senders s₀
  | tail _ hstep ih =>
    obtain ⟨env, call, event, hsender, hexec⟩ := hstep
    exact powerless_transition ih howner hpending hsender (exec_iff.mp hexec)

/-- The first operator changes its data and holds a maintenance; the others' data stays. -/
theorem without_owner_first :
    let s₁ := (after (transaction 0 11) (.updateNodeOperatorData 1 [7]) sixOperators).1
    let s₂ := (after (transaction 0 12) (.setMaintenance true) s₁).1
    s₂.maintenanceSlot = 1 ∧ (s₂.operatorSlots 0).data = [7] ∧
      (s₂.operatorSlots 1) = (sixOperators.operatorSlots 1) ∧ s₂.owner = 100 := by
  intro s₁ s₂
  have h₁ : CallsBy (· = 1) sixOperators s₁ :=
    ⟨transaction 0 11, .updateNodeOperatorData 1 [7], _, by decide,
      exec_after _ _ _ (by decide +kernel)⟩
  have h₂ : CallsBy (· = 1) s₁ s₂ :=
    ⟨transaction 0 12, .setMaintenance true, _, by decide, exec_after _ _ _ (by decide +kernel)⟩
  have h : Powerless (· = 1) sixOperators s₂ :=
    without_owner (by decide +kernel) (by decide +kernel) (.tail (.single h₁) h₂)
  exact ⟨by decide +kernel, by decide +kernel, h.data 1 (by decide +kernel),
    h.owner.trans (by decide +kernel)⟩

end Contract
end Wcn
