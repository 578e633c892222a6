import Wcn.Contract.Operators

/-!
# Wcn.Contract.Migrations

How a migration ends, and what it excludes.

* `Completing s completions s'` — a run from `s` to `s'` without an abort, and the data pulls
  completed in it, in their order.
* `Pulling s completions s'` — what such a run leaves of the migration in progress at `s`: the
  operators that did not complete their pull, still in the slots they had.
* `Exclusive` — there is no maintenance during a migration.
-/

namespace Wcn
namespace Contract

open Lib Bitmask

/-! ## Completing the data pulls -/

inductive Completing (s : State) : List (Address × Event) → State → Prop where
  | refl : Completing s [] s
  | other {s₁ s₂ : State} {msg : Msg} {call : Call} {event : Event}
      {completions : List (Address × Event)} : Completing s completions s₁ →
      (∀ id, call ≠ .completeMigration id ∧ call ≠ .abortMigration id) →
      exec msg call s₁ = .ok (s₂, event) → Completing s completions s₂
  | complete {s₁ s₂ : State} {msg : Msg} {id : Nat} {event : Event}
      {completions : List (Address × Event)} : Completing s completions s₁ →
      exec msg (.completeMigration id) s₁ = .ok (s₂, event) →
      Completing s (completions ++ [(msg.sender, event)]) s₂

/-- The slots of the operators that were pulling at `s` and are not among `completions`. -/
def remaining (s : State) (completions : List (Address × Event)) : Finset Idx :=
  (ones s.migration.pullingOperatorBitmask).filter fun i =>
    (s.operatorSlots i).addr ∉ completions.map Prod.fst

structure Pulling (s : State) (completions : List (Address × Event)) (s₁ : State) : Prop where
  pulling : ones s₁.migration.pullingOperatorBitmask = remaining s completions
  id : s₁.migration.id = s.migration.id
  target : s₁.targetKeyspace = s.targetKeyspace
  operators : ∀ i ∈ ones s.migration.pullingOperatorBitmask,
    (s₁.operatorSlots i).addr = (s.operatorSlots i).addr
  reported : ∀ c ∈ completions, ∃ version,
    c.2 = .migrationDataPullCompleted s.migration.id c.1 version

section Pulling

variable {s s₁ s₂ : State} {msg : Msg} {call : Call} {event : Event}
  {completions : List (Address × Event)} {i : Idx}

theorem Completing.run (h : Completing s completions s₁) : Run (Calls anyCall) s s₁ := by
  induction h with
  | refl => exact .refl
  | other _ _ hexec ih => exact ih.tail ⟨_, _, _, trivial, hexec⟩
  | complete _ hexec ih => exact ih.tail ⟨_, _, _, trivial, hexec⟩

/-- While a migration is in progress, nobody takes the slot of an operator of the new keyspace. -/
theorem addr_transition (hs : Membership s) (hpulling : s.migration.pullingOperatorBitmask ≠ 0)
    (h : Transition msg s call s₁ event) (hi : i ∈ ones s.targetKeyspace.operatorBitmask) :
    (s₁.operatorSlots i).addr = (s.operatorSlots i).addr := by
  have hmem := hs.target hpulling hi
  cases h with
  | @addNodeOperator operator _ hfull _ _ _ _ _ =>
    have hne : i ≠ findFirstUnset s.operatorBitmask := by
      rintro rfl
      exact (findFirstUnset_notMem hfull).1 hmem
    exact congrArg NodeOperator.addr (Function.update_of_ne hne ..)
  | @updateNodeOperatorData a newData slotIdx _ _ _ haddr _ =>
    by_cases heq : i = slotIdx
    · subst heq
      dsimp only
      rw [Function.update_self, haddr]
    · exact congrArg NodeOperator.addr (Function.update_of_ne heq ..)
  | @removeNodeOperator a slotIdx _ _ _ _ hboth _ _ =>
    have hne : i ≠ slotIdx := by
      rintro rfl
      exact hboth hpulling _ hi
    exact congrArg NodeOperator.addr (Function.update_of_ne hne ..)
  | _ => rfl

theorem completeMigration_keeps {id : Nat} (h : Transition msg s (.completeMigration id) s₁ event) :
    s₁.migration.id = s.migration.id ∧ s₁.targetKeyspace = s.targetKeyspace := by
  cases h <;> exact ⟨rfl, rfl⟩

theorem mem_remaining : i ∈ remaining s completions ↔
    i ∈ ones s.migration.pullingOperatorBitmask ∧
      (s.operatorSlots i).addr ∉ completions.map Prod.fst := by
  rw [remaining, Finset.mem_filter]

/-- One more completion takes the slot of its operator away. -/
theorem remaining_append (hr : Registry s) (hs : Membership s) (i : Idx) (event : Event) :
    remaining s (completions ++ [((s.operatorSlots i).addr, event)]) =
      (remaining s completions).erase i := by
  have hmem : ∀ {j}, j ∈ ones s.migration.pullingOperatorBitmask → j ∈ ones s.operatorBitmask := by
    intro j hj
    have hpulling := ne_zero_of_mem_ones hj
    exact hs.target hpulling (hs.pulling hpulling hj)
  ext j
  rw [Finset.mem_erase, mem_remaining, mem_remaining, List.map_append, List.mem_append, not_or]
  have haddr : j ∈ ones s.migration.pullingOperatorBitmask →
      ((s.operatorSlots j).addr ∉ [((s.operatorSlots i).addr, event)].map Prod.fst ↔ j ≠ i) := by
    intro hj
    rw [List.map_singleton, List.mem_singleton, not_iff_not]
    exact ⟨hr.slot_unique (hmem hj), fun h => by rw [h]⟩
  constructor
  · rintro ⟨hj, hnot, hother⟩
    exact ⟨(haddr hj).mp hother, hj, hnot⟩
  · rintro ⟨hne, hj, hnot⟩
    exact ⟨hj, hnot, (haddr hj).mpr hne⟩

/-- Who completes a data pull is one of the operators that remain. -/
theorem Pulling.completer (hp : Pulling s completions s₁) {id : Nat}
    (h : Transition msg s₁ (.completeMigration id) s₂ event) :
    ∃ i ∈ remaining s completions, (s.operatorSlots i).addr = msg.sender ∧ id = s.migration.id ∧
      s₁.operatorSlotIndexes msg.sender = i := by
  have hslot : s₁.IsOperator msg.sender →
      s₁.operatorSlotIndexes msg.sender ∈ ones s₁.migration.pullingOperatorBitmask →
      ∃ i ∈ remaining s completions, (s.operatorSlots i).addr = msg.sender ∧
        s₁.migration.id = s.migration.id ∧ s₁.operatorSlotIndexes msg.sender = i := by
    intro hop hmem
    rw [hp.pulling] at hmem
    exact ⟨_, hmem, (hp.operators _ (mem_remaining.mp hmem).1).symm.trans hop, hp.id, rfl⟩
  cases h with
  | completePull hidx hop hmem _ _ => exact hslot hop (hidx ▸ hmem)
  | completeMigration hidx hop hmem _ _ => exact hslot hop (hidx ▸ hmem)

/-- The last operator completes the migration, the others only their data pulls. -/
theorem Pulling.completed (hp : Pulling s completions s₁)
    (h : Transition msg s₁ (.completeMigration s₁.migration.id) s₂ event)
    (hidx : s₁.operatorSlotIndexes msg.sender = i) :
    ones s₂.migration.pullingOperatorBitmask = (remaining s completions).erase i ∧
      event = if (remaining s completions).erase i = ∅ then
          .migrationCompleted s.migration.id msg.sender (s₁.version + 1)
        else .migrationDataPullCompleted s.migration.id msg.sender (s₁.version + 1) := by
  have hones : ones (unset s₁.migration.pullingOperatorBitmask i) =
      (remaining s completions).erase i := by
    rw [ones_unset, hp.pulling]
  have hlast : (remaining s completions).erase i = ∅ ↔
      unset s₁.migration.pullingOperatorBitmask i = 0 := by
    rw [← hones, ones_eq_empty_iff]
  subst hidx
  cases h with
  | completePull hidx _ _ hrest _ =>
    subst hidx
    rw [if_neg (hlast.not.mpr hrest), ← hp.id]
    exact ⟨hones, rfl⟩
  | completeMigration hidx _ _ hrest _ =>
    subst hidx
    rw [if_pos (hlast.mpr hrest), ← hp.id, hlast.mpr hrest]
    exact ⟨ones_zero, rfl⟩

theorem Pulling.other (hs₁ : Membership s₁) (hp : Pulling s completions s₁)
    (hs : Membership s) (hremaining : (remaining s completions).Nonempty)
    (hcall : ∀ id, call ≠ .completeMigration id ∧ call ≠ .abortMigration id)
    (h : Transition msg s₁ call s₂ event) : Pulling s completions s₂ := by
  have hpulling : s₁.migration.pullingOperatorBitmask ≠ 0 := by
    obtain ⟨i, hi⟩ := hremaining
    exact ne_zero_of_mem_ones (hp.pulling ▸ hi)
  have haddr : ∀ i ∈ ones s.migration.pullingOperatorBitmask,
      (s₂.operatorSlots i).addr = (s.operatorSlots i).addr := by
    intro i hi
    have htarget := hs.pulling (ne_zero_of_mem_ones hi) hi
    rw [← hp.target] at htarget
    exact (addr_transition hs₁ hpulling h htarget).trans (hp.operators i hi)
  cases h with
  | startMigration _ _ hidle _ _ _ _ _ _ => exact absurd hidle hpulling
  | completePull _ _ _ _ _ => exact absurd rfl (hcall _).1
  | completeMigration _ _ _ _ _ => exact absurd rfl (hcall _).1
  | abortMigration _ _ _ _ => exact absurd rfl (hcall _).2
  | _ => exact ⟨hp.pulling, hp.id, hp.target, haddr, hp.reported⟩

theorem Pulling.complete (hr : Registry s) (hs : Membership s) (hs₁ : Membership s₁)
    (hp : Pulling s completions s₁) {id : Nat}
    (h : Transition msg s₁ (.completeMigration id) s₂ event)
    (hremaining : (remaining s (completions ++ [(msg.sender, event)])).Nonempty) :
    Pulling s (completions ++ [(msg.sender, event)]) s₂ := by
  obtain ⟨i, hi, hsender, rfl, hidx⟩ := hp.completer h
  have hpulling : s₁.migration.pullingOperatorBitmask ≠ 0 := ne_zero_of_mem_ones (hp.pulling ▸ hi)
  have hone : remaining s (completions ++ [(msg.sender, event)]) =
      (remaining s completions).erase i := hsender ▸ remaining_append hr hs i event
  obtain ⟨hones, hevent⟩ := hp.completed (hp.id ▸ h) hidx
  rw [hone] at hremaining
  rw [if_neg hremaining.ne_empty] at hevent
  constructor
  case pulling => rw [hones, hone]
  case id => exact (completeMigration_keeps h).1.trans hp.id
  case target => exact (completeMigration_keeps h).2.trans hp.target
  case operators =>
    intro j hj
    have htarget := hs.pulling (ne_zero_of_mem_ones hj) hj
    rw [← hp.target] at htarget
    exact (addr_transition hs₁ hpulling h htarget).trans (hp.operators j hj)
  case reported =>
    intro c hc
    rcases List.mem_append.mp hc with hc | hc
    · exact hp.reported c hc
    · rw [List.mem_singleton.mp hc]
      exact ⟨_, hevent⟩

theorem remaining_subset (c : Address × Event) :
    remaining s (completions ++ [c]) ⊆ remaining s completions := by
  intro i hi
  rw [mem_remaining, List.map_append, List.mem_append, not_or] at hi
  exact mem_remaining.mpr ⟨hi.1, hi.2.1⟩

/-- As long as one operator remains, the migration is in progress and the others reported their
pulls. -/
theorem pulling_of_completing (hr : Registry s) (hs : Membership s)
    (h : Completing s completions s₁) (hremaining : (remaining s completions).Nonempty) :
    Pulling s completions s₁ := by
  induction h with
  | refl =>
    refine ⟨?_, rfl, rfl, fun _ _ => rfl, fun c hc => absurd hc List.not_mem_nil⟩
    exact (Finset.filter_true_of_mem fun _ _ => List.not_mem_nil).symm
  | other hcompleting hcall hexec ih =>
    have hs₁ := membership_calls.run hcompleting.run hs
    exact (ih hremaining).other hs₁ hs hremaining hcall (exec_iff.mp hexec)
  | complete hcompleting hexec ih =>
    have hs₁ := membership_calls.run hcompleting.run hs
    exact (ih (hremaining.mono (remaining_subset _))).complete hr hs hs₁ (exec_iff.mp hexec) hremaining

/-- Exactly the operators that remain can complete their pull, unless the version counter is
exhausted. -/
theorem Pulling.exists_completeMigration_iff (hr₁ : Registry s₁) (hs₁ : Membership s₁)
    (hp : Pulling s completions s₁) :
    (∃ s₂ event, exec msg (.completeMigration s₁.migration.id) s₁ = .ok (s₂, event)) ↔
      (∃ i ∈ remaining s completions, (s.operatorSlots i).addr = msg.sender) ∧
        s₁.version + 1 < 2 ^ 128 := by
  simp only [exec_iff]
  constructor
  · rintro ⟨s₂, event, h⟩
    obtain ⟨i, hi, hsender, _, _⟩ := hp.completer h
    refine ⟨⟨i, hi, hsender⟩, ?_⟩
    cases h with
    | completePull _ _ _ _ hversion => exact hversion
    | completeMigration _ _ _ _ hversion => exact hversion
  · rintro ⟨⟨i, hi, hsender⟩, hversion⟩
    have haddr := (hp.operators i (mem_remaining.mp hi).1).trans hsender
    rw [← hp.pulling] at hi
    have hpulling := ne_zero_of_mem_ones hi
    have hidx : s₁.operatorSlotIndexes msg.sender = i := by
      rw [← haddr]
      exact hr₁.indexed i (hs₁.target hpulling (hs₁.pulling hpulling hi))
    have hop : s₁.IsOperator msg.sender := by rw [State.IsOperator, hidx, haddr]
    by_cases hrest : unset s₁.migration.pullingOperatorBitmask i = 0
    · exact ⟨_, _, .completeMigration hidx hop hi hrest hversion⟩
    · exact ⟨_, _, .completePull hidx hop hi hrest hversion⟩

end Pulling

/-- After an `initialize` with distinct non-zero operators, take any state with a migration in
progress and any run from it without an abort, in which at least one of the pulling operators did not
complete its pull yet. Then the migration is still in progress, with exactly these operators, and every
completion so far was reported as a data pull. Exactly the operators that remain can complete theirs,
as long as the version counter can be raised. This clears their own bit, and it completes the migration
when they are the last. -/
theorem migration_completes {env : Env} {settings : Settings} {operators : List NodeOperator}
    {s₀ s s₁ : State} {completions : List (Address × Event)}
    (hnonzero : ∀ op ∈ operators, op.addr ≠ 0) (hdistinct : (operators.map NodeOperator.addr).Nodup)
    (hinit : initializeCluster env settings operators = .ok s₀) (hrun : Run (Calls anyCall) s₀ s)
    (hcompleting : Completing s completions s₁) (hremaining : (remaining s completions).Nonempty) :
    ones s₁.migration.pullingOperatorBitmask = remaining s completions ∧
    s₁.migration.id = s.migration.id ∧
    (∀ c ∈ completions, ∃ version,
      c.2 = .migrationDataPullCompleted s.migration.id c.1 version) ∧
    ∀ msg : Msg,
      ((∃ s₂ event, exec msg (.completeMigration s.migration.id) s₁ = .ok (s₂, event)) ↔
        (∃ i ∈ remaining s completions, (s.operatorSlots i).addr = msg.sender) ∧
          s₁.version + 1 < 2 ^ 128) ∧
      ∀ s₂ event, exec msg (.completeMigration s.migration.id) s₁ = .ok (s₂, event) →
        ∃ i ∈ remaining s completions, (s.operatorSlots i).addr = msg.sender ∧
          ones s₂.migration.pullingOperatorBitmask = (remaining s completions).erase i ∧
          event = if remaining s completions = {i} then
              .migrationCompleted s.migration.id msg.sender (s₁.version + 1)
            else .migrationDataPullCompleted s.migration.id msg.sender (s₁.version + 1) := by
  have hr := registry_calls.run hrun (registry_initialized hnonzero hdistinct hinit)
  have hs := membership_calls.run hrun (membership_initialized hinit)
  have hr₁ := registry_calls.run hcompleting.run hr
  have hs₁ := membership_calls.run hcompleting.run hs
  have hp := pulling_of_completing hr hs hcompleting hremaining
  refine ⟨hp.pulling, hp.id, hp.reported, fun msg => ?_⟩
  rw [← hp.id]
  refine ⟨hp.exists_completeMigration_iff hr₁ hs₁, fun s₂ event h => ?_⟩
  rw [exec_iff] at h
  obtain ⟨i, hi, hsender, _, hidx⟩ := hp.completer h
  obtain ⟨hones, hevent⟩ := hp.completed h hidx
  have hlast : (remaining s completions).erase i = ∅ ↔ remaining s completions = {i} := by
    rw [Finset.erase_eq_empty_iff]
    exact or_iff_right hremaining.ne_empty
  simp only [hlast] at hevent
  rw [hp.id]
  exact ⟨i, hi, hsender, hones, hevent⟩

/-- The migration to the first five operators, of which the first has pulled its data. -/
theorem migration_completes_second :
    ∃ s s₁ s₂ pulled event, Run (Calls anyCall) sixOperators s ∧
      exec (transaction 0 12) (.completeMigration s.migration.id) s = .ok (s₁, pulled) ∧
      exec (transaction 1 13) (.completeMigration s.migration.id) s₁ = .ok (s₂, event) := by
  let migrating := (after (transaction 99 11) (.startMigration ⟨fill 5, 0⟩) sixOperators).1
  have hrun : Run (Calls anyCall) sixOperators migrating :=
    .single (calls_after trivial (by decide +kernel))
  have hpulled := exec_after (transaction 0 12) (.completeMigration migrating.migration.id) migrating
    (by decide +kernel)
  obtain ⟨s₂, event, hcompleted⟩ := ((migration_completes (by decide) (by decide)
    initialize_sixOperators hrun (.complete .refl hpulled) (by decide +kernel)).2.2.2
      (transaction 1 13)).1.mpr ⟨⟨1, by decide +kernel, by decide +kernel⟩, by decide +kernel⟩
  exact ⟨migrating, _, s₂, _, event, hrun, hpulled, hcompleted⟩

/-- The owner can raise the version as far as its type allows. -/
theorem run_raiseVersion {s : State} {msg : Msg} (howner : msg.sender = s.owner)
    (hcount : s.settings.minOperators ≤ countSet s.operatorBitmask) {n : Nat}
    (hn : s.version + n < 2 ^ 128) :
    Run (Calls anyCall) s { s with version := s.version + n } := by
  induction n with
  | zero => exact .refl
  | succ n ih =>
    have hraise : Transition msg { s with version := s.version + n } (.updateSettings s.settings) _ _ :=
      .updateSettings howner hcount hn
    exact (ih (by omega)).tail ⟨msg, .updateSettings s.settings, _, trivial, exec_iff.mpr hraise⟩

/-- Once the version is the last one of its type, no operator can complete its pull. -/
theorem completeMigration_exhausted :
    ∃ s, Run (Calls anyCall) sixOperators s ∧ 0 ∈ ones s.migration.pullingOperatorBitmask ∧
      (s.operatorSlots 0).addr = (transaction 0 12).sender ∧
      exec (transaction 0 12) (.completeMigration s.migration.id) s = .error .panic := by
  let migrating := (after (transaction 99 11) (.startMigration ⟨fill 5, 0⟩) sixOperators).1
  have hstart : Calls anyCall sixOperators migrating := calls_after trivial (by decide +kernel)
  have howner : (transaction 99 12).sender = migrating.owner := by decide +kernel
  have hrun := run_raiseVersion howner (by decide +kernel) (n := 2 ^ 128 - 3) (by decide +kernel)
  have hfails : failure? (exec (transaction 0 12) (.completeMigration migrating.migration.id)
      { migrating with version := migrating.version + (2 ^ 128 - 3) }) = some .panic := by
    decide +kernel
  exact ⟨_, .head hstart hrun, by decide +kernel, by decide +kernel, eq_error_of_failure? hfails⟩

/-! ## Maintenance -/

def Exclusive (s : State) : Prop :=
  s.maintenanceSlot = 0 ∨ s.migration.pullingOperatorBitmask = 0

/-- A call that starts no maintenance during a migration. -/
def IdleMaintenance (s : State) : Call → Prop
  | .setMaintenance true => s.migration.pullingOperatorBitmask = 0
  | _ => True

section Maintenance

variable {s s' : State} {msg : Msg} {call : Call} {event : Event}

theorem exclusive_transition (hs : Exclusive s) (hcall : IdleMaintenance s call)
    (h : Transition msg s call s' event) : Exclusive s' := by
  cases h with
  | startMigration _ hfree _ _ _ _ _ _ _ => exact .inl hfree
  | completePull _ _ hmem _ _ => exact .inl (hs.resolve_right (ne_zero_of_mem_ones hmem))
  | completeMigration _ _ _ _ _ => exact .inr rfl
  | abortMigration _ _ _ _ => exact .inr rfl
  | startMaintenance _ _ _ => exact .inr hcall
  | finishMaintenance _ _ _ => exact .inl rfl
  | _ => exact hs

/-- An account that starts a maintenance during a migration breaks the exclusion. -/
theorem not_exclusive_of_startMaintenance (hsender : msg.sender ≠ 0)
    (hpulling : s.migration.pullingOperatorBitmask ≠ 0)
    (h : Transition msg s (.setMaintenance true) s' event) : ¬ Exclusive s' := by
  cases h with | startMaintenance _ _ _
  rintro (hfree | hidle)
  · exact hsender hfree
  · exact hpulling hidle

theorem exclusive_calls : Invariant (Calls IdleMaintenance) Exclusive := by
  rintro s s' hs ⟨msg, call, event, hcall, h⟩
  exact exclusive_transition hs hcall (exec_iff.mp h)

end Maintenance

/-- There is never a maintenance during a migration, in a run in which none was started during one.
The next call of an account keeps it that way exactly when it does not do that either. -/
theorem maintenance_excludes_migration {env : Env} {settings : Settings}
    {operators : List NodeOperator} {s₀ s : State}
    (hinit : initializeCluster env settings operators = .ok s₀)
    (hrun : Run (Calls IdleMaintenance) s₀ s) :
    ¬ (s.maintenanceSlot ≠ 0 ∧ s.migration.pullingOperatorBitmask ≠ 0) ∧
    ∀ (msg : Msg) (call : Call) (s' : State) (event : Event), msg.sender ≠ 0 →
      exec msg call s = .ok (s', event) →
      (¬ (s'.maintenanceSlot ≠ 0 ∧ s'.migration.pullingOperatorBitmask ≠ 0) ↔
        IdleMaintenance s call) := by
  have hexclusive : ∀ s : State,
      ¬ (s.maintenanceSlot ≠ 0 ∧ s.migration.pullingOperatorBitmask ≠ 0) ↔ Exclusive s := by
    intro s
    rw [not_and_or, not_not, not_not, Exclusive]
  have hinitial : Exclusive s₀ := by
    obtain ⟨_, _, _, _, _, heq⟩ := initializeCluster_ok hinit
    rw [heq]
    exact .inl rfl
  have hs := exclusive_calls.run hrun hinitial
  refine ⟨(hexclusive s).mpr hs, fun msg call s' event hsender h => ?_⟩
  rw [hexclusive]
  rw [exec_iff] at h
  refine ⟨fun hs' => ?_, fun hcall => exclusive_transition hs hcall h⟩
  by_contra hnot
  unfold IdleMaintenance at hnot
  split at hnot
  · exact not_exclusive_of_startMaintenance hsender hnot h hs'
  · exact hnot trivial

/-- The first operator starts a maintenance before any migration. -/
theorem maintenance_excludes_migration_idle :
    ∃ s, Run (Calls IdleMaintenance) sixOperators s ∧ s.maintenanceSlot ≠ 0 ∧
      ¬ (s.maintenanceSlot ≠ 0 ∧ s.migration.pullingOperatorBitmask ≠ 0) := by
  have hidle : IdleMaintenance sixOperators (.setMaintenance true) :=
    (by decide +kernel : sixOperators.migration.pullingOperatorBitmask = 0)
  have hrun : Run (Calls IdleMaintenance) sixOperators
      (after (transaction 0 11) (.setMaintenance true) sixOperators).1 :=
    .single (calls_after hidle (by decide +kernel))
  exact ⟨_, hrun, by decide +kernel,
    (maintenance_excludes_migration initialize_sixOperators hrun).1⟩

/-- The first operator starts a maintenance while its cluster migrates. -/
theorem maintenance_during_migration :
    ∃ s, Run (Calls anyCall) sixOperators s ∧ s.maintenanceSlot ≠ 0 ∧
      s.migration.pullingOperatorBitmask ≠ 0 := by
  let migrating := (after (transaction 99 11) (.startMigration ⟨fill 5, 0⟩) sixOperators).1
  have hstart : Calls anyCall sixOperators migrating := calls_after trivial (by decide +kernel)
  have hmaintain : Calls anyCall migrating
      (after (transaction 0 12) (.setMaintenance true) migrating).1 :=
    calls_after trivial (by decide +kernel)
  exact ⟨_, .tail (.single hstart) hmaintain, by decide +kernel, by decide +kernel⟩

end Contract
end Wcn
