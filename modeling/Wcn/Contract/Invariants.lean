import Wcn.Lib.Runs
import Wcn.Contract.Transitions

/-!
# Wcn.Contract.Invariants

What holds in every state the contract can reach.

* `Registry` — the slot map of operators: a bit is set exactly for the slots with an address, and
  every address in a slot points back to it. Needs distinct non-zero initial addresses.
* `Membership` — there are enough operators, and the keyspaces and the operators still pulling are
  among them.
* `Keyspaces ok` — the keyspaces in use satisfy `ok`, when every keyspace a migration starts with
  does.
-/

namespace Wcn
namespace Contract

open Lib Bitmask

namespace State

/-- The keyspace in use: the one before the target, while a migration is in progress. -/
def primaryKeyspace (s : State) : Keyspace :=
  if s.migration.pullingOperatorBitmask = 0 then s.keyspaces (Fin.ofNat 2 s.keyspaceVersion)
  else s.keyspaces (Fin.ofNat 2 (s.keyspaceVersion - 1))

/-- The keyspace a migration in progress leads to. -/
def targetKeyspace (s : State) : Keyspace := s.keyspaces (Fin.ofNat 2 s.keyspaceVersion)

end State

structure Registry (s : State) : Prop where
  occupied : ∀ i, i ∈ ones s.operatorBitmask ↔ (s.operatorSlots i).addr ≠ 0
  indexed : ∀ i ∈ ones s.operatorBitmask, s.operatorSlotIndexes (s.operatorSlots i).addr = i
  /-- An index other than zero points to its address. -/
  registered : ∀ a, s.operatorSlotIndexes a ≠ 0 → s.IsOperator a
  zero : s.operatorSlotIndexes 0 = 0

structure Membership (s : State) : Prop where
  count : s.settings.minOperators ≤ countSet s.operatorBitmask
  primary : ones s.primaryKeyspace.operatorBitmask ⊆ ones s.operatorBitmask
  target : s.migration.pullingOperatorBitmask ≠ 0 →
    ones s.targetKeyspace.operatorBitmask ⊆ ones s.operatorBitmask
  pulling : s.migration.pullingOperatorBitmask ≠ 0 →
    ones s.migration.pullingOperatorBitmask ⊆ ones s.targetKeyspace.operatorBitmask
  started : s.migration.pullingOperatorBitmask ≠ 0 → s.keyspaceVersion ≠ 0

structure Keyspaces (ok : Keyspace → Prop) (s : State) : Prop where
  primary : ok s.primaryKeyspace
  target : s.migration.pullingOperatorBitmask ≠ 0 → ok s.targetKeyspace

section Registry

variable {s s' : State} {env : Msg} {call : Call} {event : Event}

/-- An operator's slot is occupied, and it is the one its address points to. -/
theorem Registry.mem_of_isOperator (hs : Registry s) {a : Address} (ha : a ≠ 0)
    (hop : s.IsOperator a) : s.operatorSlotIndexes a ∈ ones s.operatorBitmask := by
  rw [hs.occupied, hop]
  exact ha

/-- Two slots never hold the same operator. -/
theorem Registry.slot_unique (hs : Registry s) {i j : Idx} (hi : i ∈ ones s.operatorBitmask)
    (haddr : (s.operatorSlots i).addr = (s.operatorSlots j).addr) : i = j := by
  have hj : j ∈ ones s.operatorBitmask := by
    rw [hs.occupied, ← haddr]
    exact (hs.occupied i).mp hi
  rw [← hs.indexed i hi, haddr, hs.indexed j hj]

theorem Registry.setOperator (hs : Registry s) {slotIdx : Idx} {operator : NodeOperator}
    (hfree : slotIdx ∉ ones s.operatorBitmask) (haddr : operator.addr ≠ 0)
    (hnew : ∀ i ∈ ones s.operatorBitmask, (s.operatorSlots i).addr ≠ operator.addr) :
    Registry (s.setOperator slotIdx operator) := by
  have hslot : ∀ i ∈ ones s.operatorBitmask, i ≠ slotIdx := by
    rintro i hi rfl
    exact hfree hi
  constructor
  case occupied =>
    intro i
    simp only [State.setOperator, ones_set, Finset.mem_insert]
    by_cases hi : i = slotIdx
    · subst hi
      rw [Function.update_self]
      exact iff_of_true (.inl rfl) haddr
    · rw [Function.update_of_ne hi, ← hs.occupied i]
      simp [hi]
  case indexed =>
    intro i hi
    simp only [State.setOperator, ones_set, Finset.mem_insert] at hi ⊢
    rcases hi with rfl | hi
    · rw [Function.update_self, Function.update_self]
    · rw [Function.update_of_ne (hslot i hi), Function.update_of_ne (hnew i hi), hs.indexed i hi]
  case registered =>
    intro a ha
    simp only [State.IsOperator, State.setOperator] at ha ⊢
    by_cases hop : a = operator.addr
    · subst hop
      rw [Function.update_self, Function.update_self]
    · rw [Function.update_of_ne hop] at ha ⊢
      have hreg := hs.registered a ha
      have hne : a ≠ 0 := by
        rintro rfl
        exact ha hs.zero
      rw [Function.update_of_ne (hslot _ (hs.mem_of_isOperator hne hreg))]
      exact hreg
  case zero =>
    simp only [State.setOperator]
    rw [Function.update_of_ne haddr.symm]
    exact hs.zero

theorem Registry.remove (hs : Registry s) {a : Address} (hop : s.IsOperator a) :
    Registry { s with
      operatorSlots := Function.update s.operatorSlots (s.operatorSlotIndexes a) {}
      operatorSlotIndexes := Function.update s.operatorSlotIndexes a 0
      operatorBitmask := unset s.operatorBitmask (s.operatorSlotIndexes a) } := by
  constructor
  case occupied =>
    intro i
    simp only [ones_unset, Finset.mem_erase]
    by_cases hi : i = s.operatorSlotIndexes a
    · subst hi
      simp
    · rw [Function.update_of_ne hi, ← hs.occupied i]
      simp [hi]
  case indexed =>
    intro i hi
    simp only [ones_unset, Finset.mem_erase] at hi ⊢
    have hne : (s.operatorSlots i).addr ≠ a := by
      rintro rfl
      exact hi.1 (hs.indexed i hi.2).symm
    rw [Function.update_of_ne hi.1, Function.update_of_ne hne, hs.indexed i hi.2]
  case registered =>
    intro b hb
    simp only [State.IsOperator] at hb ⊢
    have hba : b ≠ a := by
      rintro rfl
      rw [Function.update_self] at hb
      exact hb rfl
    rw [Function.update_of_ne hba] at hb ⊢
    have hreg := hs.registered b hb
    have hslot : s.operatorSlotIndexes b ≠ s.operatorSlotIndexes a := by
      intro heq
      rw [State.IsOperator, heq, hop] at hreg
      exact hba hreg.symm
    rw [Function.update_of_ne hslot]
    exact hreg
  case zero =>
    simp only
    by_cases ha : (0 : Address) = a
    · rw [← ha, Function.update_self]
    · rw [Function.update_of_ne ha]
      exact hs.zero

theorem registry_transition (hs : Registry s) (h : Transition env s call s' event) : Registry s' := by
  cases h with
  | @addNodeOperator operator _ hfull haddr hidx hslot _ _ =>
    have hset := hs.setOperator (findFirstUnset_notMem hfull).1 haddr (fun i hi heq => by
      -- the address would be registered, in the one slot whose index is zero
      have hi0 : i = 0 := by rw [← hs.indexed i hi, heq, hidx]
      exact hslot (hi0 ▸ heq))
    exact ⟨hset.occupied, hset.indexed, hset.registered, hset.zero⟩
  | @updateNodeOperatorData a newData slotIdx _ _ hidx haddr _ =>
    have hsame : ∀ i, (Function.update s.operatorSlots slotIdx ⟨a, newData⟩ i).addr =
        (s.operatorSlots i).addr := by
      intro i
      by_cases hi : i = slotIdx
      · rw [hi, Function.update_self, haddr]
      · rw [Function.update_of_ne hi]
    constructor
    · intro i
      simp only [hsame]
      exact hs.occupied i
    · intro i hi
      simp only [hsame]
      exact hs.indexed i hi
    · intro b hb
      simp only [State.IsOperator, hsame]
      exact hs.registered b hb
    · exact hs.zero
  | @removeNodeOperator a slotIdx _ hidx haddr _ _ _ _ =>
    subst hidx
    have hrem := hs.remove haddr
    exact ⟨hrem.occupied, hrem.indexed, hrem.registered, hrem.zero⟩
  | _ => exact ⟨hs.occupied, hs.indexed, hs.registered, hs.zero⟩

end Registry

section Membership

variable {s s' : State} {env : Msg} {call : Call} {event : Event} {ok : Keyspace → Prop}

theorem parity_succ_ne (n : Nat) : Fin.ofNat 2 n ≠ Fin.ofNat 2 (n + 1) := by
  intro h
  have hval := congrArg Fin.val h
  simp only [Fin.val_ofNat] at hval
  omega

theorem State.primaryKeyspace_idle (h : s.migration.pullingOperatorBitmask = 0) :
    s.primaryKeyspace = s.targetKeyspace := by
  rw [primaryKeyspace, if_pos h, targetKeyspace]

theorem State.primaryKeyspace_migrating (h : s.migration.pullingOperatorBitmask ≠ 0) :
    s.primaryKeyspace = s.keyspaces (Fin.ofNat 2 (s.keyspaceVersion - 1)) := by
  rw [primaryKeyspace, if_neg h]

/-- The primary keyspace is back in use once its migration was aborted. -/
theorem State.primaryKeyspace_aborted {migration : Migration} {version : Nat}
    (hne : s.migration.pullingOperatorBitmask ≠ 0) (h : migration.pullingOperatorBitmask = 0) :
    State.primaryKeyspace { s with
      migration := migration
      keyspaceVersion := s.keyspaceVersion - 1
      version := version } = s.primaryKeyspace := by
  rw [State.primaryKeyspace_idle h, State.primaryKeyspace_migrating hne]
  rfl

/-- It stays in use while operators pull. -/
theorem State.primaryKeyspace_pulled {migration : Migration} {version : Nat}
    (hne : s.migration.pullingOperatorBitmask ≠ 0) (h : migration.pullingOperatorBitmask ≠ 0) :
    State.primaryKeyspace { s with migration := migration, version := version } =
      s.primaryKeyspace := by
  rw [State.primaryKeyspace_migrating h, State.primaryKeyspace_migrating hne]

/-- And when a migration starts. -/
theorem State.primaryKeyspace_started {newKeyspace : Keyspace} {migration : Migration}
    {version : Nat} (hidle : s.migration.pullingOperatorBitmask = 0)
    (h : migration.pullingOperatorBitmask ≠ 0) :
    State.primaryKeyspace { s with
      migration := migration
      keyspaceVersion := s.keyspaceVersion + 1
      keyspaces := Function.update s.keyspaces (Fin.ofNat 2 (s.keyspaceVersion + 1)) newKeyspace
      version := version } = s.primaryKeyspace := by
  rw [State.primaryKeyspace_migrating h, State.primaryKeyspace_idle hidle]
  exact Function.update_of_ne (parity_succ_ne _) ..

theorem State.targetKeyspace_started {newKeyspace : Keyspace} {migration : Migration}
    {version : Nat} :
    State.targetKeyspace { s with
      migration := migration
      keyspaceVersion := s.keyspaceVersion + 1
      keyspaces := Function.update s.keyspaces (Fin.ofNat 2 (s.keyspaceVersion + 1)) newKeyspace
      version := version } = newKeyspace :=
  Function.update_self ..

theorem keyspaces_transition (hs : Keyspaces ok s) (h : Transition env s call s' event)
    (hcall : ∀ newKeyspace, call = .startMigration newKeyspace →
      s.settings.minOperators ≤ countSet newKeyspace.operatorBitmask → ok newKeyspace) :
    Keyspaces ok s' := by
  cases h with
  | @startMigration newKeyspace _ _ hidle hcount _ _ _ _ _ =>
    have hnew := hcall newKeyspace rfl hcount
    constructor
    case primary =>
      by_cases h0 : newKeyspace.operatorBitmask = 0
      · rw [State.primaryKeyspace_idle h0, State.targetKeyspace_started]
        exact hnew
      · rw [State.primaryKeyspace_started hidle h0]
        exact hs.primary
    case target =>
      intro _
      rw [State.targetKeyspace_started]
      exact hnew
  | @completePull slotIdx _ _ hmem hrest _ =>
    have hne := ne_zero_of_mem_ones hmem
    refine ⟨?_, fun _ => hs.target hne⟩
    rw [State.primaryKeyspace_pulled hne hrest]
    exact hs.primary
  | @completeMigration slotIdx _ _ hmem _ _ =>
    have hne := ne_zero_of_mem_ones hmem
    refine ⟨?_, fun h => absurd rfl h⟩
    rw [State.primaryKeyspace_idle rfl]
    exact hs.target hne
  | abortMigration _ hne _ _ =>
    refine ⟨?_, fun h => absurd rfl h⟩
    rw [State.primaryKeyspace_aborted hne rfl]
    exact hs.primary
  | _ => exact ⟨hs.primary, hs.target⟩

theorem membership_transition (hs : Membership s) (h : Transition env s call s' event) :
    Membership s' := by
  cases h with
  | @startMigration newKeyspace _ _ hidle hcount hsub _ _ _ _ =>
    constructor
    case count => exact hs.count
    case primary =>
      by_cases h0 : newKeyspace.operatorBitmask = 0
      · rw [State.primaryKeyspace_idle h0, State.targetKeyspace_started]
        exact hsub
      · rw [State.primaryKeyspace_started hidle h0]
        exact hs.primary
    case target =>
      intro _
      rw [State.targetKeyspace_started]
      exact hsub
    case pulling =>
      intro _
      rw [State.targetKeyspace_started]
    case started => exact fun _ => Nat.succ_ne_zero _
  | @completePull slotIdx _ _ hmem hrest _ =>
    have hne := ne_zero_of_mem_ones hmem
    constructor
    case count => exact hs.count
    case primary =>
      rw [State.primaryKeyspace_pulled hne hrest]
      exact hs.primary
    case target => exact fun _ => hs.target hne
    case pulling =>
      intro _
      rw [ones_unset]
      exact (Finset.erase_subset _ _).trans (hs.pulling hne)
    case started => exact fun _ => hs.started hne
  | @completeMigration slotIdx _ _ hmem _ _ =>
    have hne := ne_zero_of_mem_ones hmem
    refine ⟨hs.count, ?_, fun h => absurd rfl h, fun h => absurd rfl h, fun h => absurd rfl h⟩
    rw [State.primaryKeyspace_idle rfl]
    exact hs.target hne
  | abortMigration _ hne _ _ =>
    refine ⟨hs.count, ?_, fun h => absurd rfl h, fun h => absurd rfl h, fun h => absurd rfl h⟩
    rw [State.primaryKeyspace_aborted hne rfl]
    exact hs.primary
  | @addNodeOperator operator _ _ _ _ _ _ _ =>
    have hsub : ones s.operatorBitmask ⊆
        ones (set s.operatorBitmask (findFirstUnset s.operatorBitmask)) := by
      rw [ones_set]
      exact Finset.subset_insert _ _
    exact ⟨hs.count.trans (Finset.card_le_card hsub), hs.primary.trans hsub,
      fun h => (hs.target h).trans hsub, hs.pulling, hs.started⟩
  | @removeNodeOperator a slotIdx _ _ _ hcount hboth hcurrent _ =>
    have herase : ∀ {keyspace : Keyspace}, slotIdx ∉ ones keyspace.operatorBitmask →
        ones keyspace.operatorBitmask ⊆ ones s.operatorBitmask →
        ones keyspace.operatorBitmask ⊆ ones (unset s.operatorBitmask slotIdx) := by
      intro keyspace hnot hsub
      rw [ones_unset, Finset.subset_erase]
      exact ⟨hsub, hnot⟩
    constructor
    case count =>
      have hcard := Finset.pred_card_le_card_erase (s := ones s.operatorBitmask) (a := slotIdx)
      simp only [countSet, ones_unset] at hcount ⊢
      omega
    case primary =>
      have hnot : slotIdx ∉ ones s.primaryKeyspace.operatorBitmask := by
        by_cases h0 : s.migration.pullingOperatorBitmask = 0
        · rw [State.primaryKeyspace_idle h0]
          exact hcurrent h0
        · rw [State.primaryKeyspace_migrating h0]
          exact hboth h0 _
      exact herase hnot hs.primary
    case target => exact fun h => herase (hboth h _) (hs.target h)
    case pulling => exact hs.pulling
    case started => exact hs.started
  | updateSettings _ hcount _ => exact ⟨hcount, hs.primary, hs.target, hs.pulling, hs.started⟩
  | _ => exact ⟨hs.count, hs.primary, hs.target, hs.pulling, hs.started⟩

end Membership

/-! ## Initial states -/

section Initial

theorem ones_setOperator_next {i : Nat} {s : State} {op : NodeOperator} (hi : i < 256)
    (hmask : ones s.operatorBitmask = Finset.univ.filter (·.val < i)) :
    ones (s.setOperator (Fin.ofNat 256 i) op).operatorBitmask =
      Finset.univ.filter (·.val < i + 1) := by
  ext j
  simp only [State.setOperator, ones_set, hmask, Finset.mem_insert, Finset.mem_filter,
    Finset.mem_univ, true_and, Fin.ext_iff, Fin.val_ofNat, Nat.mod_eq_of_lt hi]
  omega

theorem initializeOperators_ok {operators : List NodeOperator} {i : Nat} {s s' : State}
    (hlen : i + operators.length ≤ 256)
    (hmask : ones s.operatorBitmask = Finset.univ.filter (·.val < i))
    (h : initializeOperators i s operators = .ok s') :
    ones s'.operatorBitmask = Finset.univ.filter (·.val < i + operators.length) ∧
      ∃ slots indexes, s' = { s with
        operatorSlots := slots
        operatorSlotIndexes := indexes
        operatorBitmask := s'.operatorBitmask } := by
  induction operators generalizing i s with
  | nil =>
    rw [initializeOperators, Except.ok.injEq] at h
    subst h
    exact ⟨hmask, s.operatorSlots, s.operatorSlotIndexes, rfl⟩
  | cons op operators ih =>
    rw [List.length_cons] at hlen ⊢
    rw [initializeOperators, bind_eq_ok] at h
    obtain ⟨_, _, h⟩ := h
    dsimp only at h
    split_ifs at h
    obtain ⟨hones, slots, indexes, heq⟩ :=
      ih (by omega) (ones_setOperator_next (by omega) hmask) h
    exact ⟨by rw [hones, Nat.add_assoc, Nat.add_comm 1], slots, indexes, heq⟩

theorem registry_initializeOperators {operators : List NodeOperator} {i : Nat} {s s' : State}
    (hs : Registry s) (hlen : i + operators.length ≤ 256)
    (hmask : ones s.operatorBitmask = Finset.univ.filter (·.val < i))
    (hnonzero : ∀ op ∈ operators, op.addr ≠ 0)
    (hdistinct : (operators.map NodeOperator.addr).Nodup)
    (hnew : ∀ j ∈ ones s.operatorBitmask, ∀ op ∈ operators, (s.operatorSlots j).addr ≠ op.addr)
    (h : initializeOperators i s operators = .ok s') : Registry s' := by
  induction operators generalizing i s with
  | nil =>
    rw [initializeOperators, Except.ok.injEq] at h
    exact h ▸ hs
  | cons op operators ih =>
    rw [List.length_cons] at hlen
    rw [List.map_cons, List.nodup_cons] at hdistinct
    rw [initializeOperators, bind_eq_ok] at h
    obtain ⟨_, _, h⟩ := h
    dsimp only at h
    split_ifs at h
    have hfree : Fin.ofNat 256 i ∉ ones s.operatorBitmask := by
      rw [hmask, Finset.mem_filter, Fin.val_ofNat, Nat.mod_eq_of_lt (by omega)]
      omega
    have hreg := hs.setOperator hfree (hnonzero op List.mem_cons_self)
      (fun j hj => hnew j hj op List.mem_cons_self)
    refine ih hreg (by omega) (ones_setOperator_next (by omega) hmask)
      (fun op' h' => hnonzero op' (List.mem_cons_of_mem _ h')) hdistinct.2 ?_ h
    intro j hj op' hop'
    simp only [State.setOperator, ones_set, Finset.mem_insert] at hj ⊢
    by_cases hji : j = Fin.ofNat 256 i
    · rw [hji, Function.update_self]
      exact fun heq => hdistinct.1 (heq ▸ List.mem_map_of_mem hop')
    · rw [Function.update_of_ne hji]
      exact hnew j (hj.resolve_left hji) op' (List.mem_cons_of_mem _ hop')

/-- What `initialize` leaves behind. -/
theorem initializeCluster_ok {env : Env} {settings : Settings} {operators : List NodeOperator}
    {s : State} (h : initializeCluster env settings operators = .ok s) :
    settings.minOperators ≤ operators.length ∧ operators.length ≤ 256 ∧
      ones s.operatorBitmask = Finset.univ.filter (·.val < operators.length) ∧
      ∃ slots indexes, s = {
        owner := env.sender
        settings := settings
        version := 1
        operatorSlots := slots
        operatorSlotIndexes := indexes
        operatorBitmask := s.operatorBitmask
        keyspaces := Function.update (fun _ => {}) 0 ⟨fill operators.length, 0⟩ } := by
  unfold initializeCluster at h
  split_ifs at h with hmax hmin
  rw [bind_eq_ok] at h
  obtain ⟨s₁, hinit, h⟩ := h
  obtain ⟨hones, slots, indexes, heq⟩ :=
    initializeOperators_ok (by omega) (by simp) hinit
  rw [Except.ok.injEq] at h
  subst h
  refine ⟨by omega, by omega, by simpa using hones, slots, indexes, ?_⟩
  rw [heq]

section Initialized

variable {env : Env} {settings : Settings} {operators : List NodeOperator} {s : State}

/-- The first slots are taken, and form the keyspace. -/
theorem ones_initialized (h : initializeCluster env settings operators = .ok s) :
    ones s.operatorBitmask = Finset.univ.filter (·.val < operators.length) ∧
      ones s.primaryKeyspace.operatorBitmask = Finset.univ.filter (·.val < operators.length) := by
  obtain ⟨_, hmax, hones, _, _, heq⟩ := initializeCluster_ok h
  refine ⟨hones, ?_⟩
  rw [heq]
  exact ones_fill hmax

theorem countSet_initialized (h : initializeCluster env settings operators = .ok s) :
    countSet s.operatorBitmask = operators.length := by
  rw [countSet, (ones_initialized h).1, Fin.card_filter_val_lt,
    Nat.min_eq_right (initializeCluster_ok h).2.1]

theorem membership_initialized (h : initializeCluster env settings operators = .ok s) :
    Membership s := by
  obtain ⟨hmin, _, _, _, _, heq⟩ := initializeCluster_ok h
  have hidle : s.migration.pullingOperatorBitmask = 0 := by rw [heq]
  have hsettings : s.settings = settings := by rw [heq]
  refine ⟨by rwa [hsettings, countSet_initialized h], ?_, ?_, ?_, ?_⟩
  · rw [(ones_initialized h).1, (ones_initialized h).2]
  all_goals exact fun hne => absurd hidle hne

theorem registry_initialized (hnonzero : ∀ op ∈ operators, op.addr ≠ 0)
    (hdistinct : (operators.map NodeOperator.addr).Nodup)
    (h : initializeCluster env settings operators = .ok s) : Registry s := by
  unfold initializeCluster at h
  split_ifs at h
  rw [bind_eq_ok] at h
  obtain ⟨s₁, hinit, h⟩ := h
  have hreg := registry_initializeOperators (i := 0) ⟨by simp, by simp, by simp, rfl⟩ (by omega)
    (by simp) hnonzero hdistinct (by simp) hinit
  rw [Except.ok.injEq] at h
  rw [← h]
  exact ⟨hreg.occupied, hreg.indexed, hreg.registered, hreg.zero⟩

end Initialized

end Initial

/-! ## Runs of any calls -/

/-- A successful call that is `allowed` in the state before it, by anybody. -/
def Calls (allowed : State → Call → Prop) (s s' : State) : Prop :=
  ∃ msg call event, allowed s call ∧ exec msg call s = .ok (s', event)

def anyCall (_ : State) (_ : Call) : Prop := True

section Calls

variable {allowed : State → Call → Prop} {s s' : State}

theorem registry_calls : Invariant (Calls allowed) Registry := by
  rintro s s' hs ⟨msg, call, event, _, h⟩
  exact registry_transition hs (exec_iff.mp h)

theorem membership_calls : Invariant (Calls allowed) Membership := by
  rintro s s' hs ⟨msg, call, event, _, h⟩
  exact membership_transition hs (exec_iff.mp h)

end Calls

/-! ## Runs under a policy -/

/-- What the calls of a run are restricted to: settings that always ask for five operators, and
keyspaces for migrations. -/
structure Policy where
  settings : Settings → Prop
  keyspace : Keyspace → Prop
  minOperators : ∀ st, settings st → st.minOperators = 5
  initial : ∀ n, keyspace ⟨fill n, 0⟩

namespace Policy

def Allows (policy : Policy) : Call → Prop
  | .startMigration newKeyspace => policy.keyspace newKeyspace
  | .updateSettings newSettings => policy.settings newSettings
  | _ => True

end Policy

def Step (policy : Policy) (s s' : State) : Prop :=
  ∃ (env : Env) (call : Call) (event : Event), policy.Allows call ∧
    exec env call s = .ok (s', event)

/-- `initialize` with distinct non-zero operators. -/
def Initial (policy : Policy) (env : Env) (s : State) : Prop :=
  ∃ settings operators, policy.settings settings ∧ (∀ op ∈ operators, op.addr ≠ 0) ∧
    (operators.map NodeOperator.addr).Nodup ∧ initializeCluster env settings operators = .ok s

def Reachable (policy : Policy) (s : State) : Prop :=
  ∃ env s₀, Initial policy env s₀ ∧ Run (Step policy) s₀ s

/-- The state after a block, and the timestamp of the block. -/
structure Block where
  state : State
  time : Nat

/-- A call in the same block or a later one. Timestamps of blocks do not decrease. -/
def Block.Step (policy : Policy) (b b' : Block) : Prop :=
  ∃ (env : Env) (call : Call) (event : Event), policy.Allows call ∧ b.time ≤ env.timestamp ∧
    exec env call b.state = .ok (b'.state, event) ∧ b'.time = env.timestamp

def Block.Reachable (policy : Policy) (b : Block) : Prop :=
  ∃ env s₀, Initial policy env s₀ ∧ Run (Block.Step policy) ⟨s₀, env.timestamp⟩ b

structure Sound (policy : Policy) (s : State) : Prop where
  registry : Registry s
  membership : Membership s
  settings : policy.settings s.settings
  keyspaces : Keyspaces (fun keyspace =>
    policy.keyspace keyspace ∧ 5 ≤ countSet keyspace.operatorBitmask) s

section Sound

variable {policy : Policy}

theorem sound_initial {env : Env} {s : State} (h : Initial policy env s) : Sound policy s := by
  obtain ⟨settings, operators, hpolicy, hnonzero, hdistinct, h⟩ := h
  obtain ⟨hmin, _, _, _, _, heq⟩ := initializeCluster_ok h
  have hsettings : s.settings = settings := by rw [heq]
  refine ⟨registry_initialized hnonzero hdistinct h, membership_initialized h, by rwa [hsettings], ?_⟩
  refine ⟨⟨by rw [heq]; exact policy.initial _, ?_⟩, fun hne => absurd (by rw [heq]) hne⟩
  rw [countSet, (ones_initialized h).2, ← (ones_initialized h).1, ← countSet, countSet_initialized h,
    ← policy.minOperators settings hpolicy]
  exact hmin

theorem sound_step : Invariant (Step policy) (Sound policy) := by
  rintro s s' hs ⟨env, call, event, hallowed, h⟩
  rw [exec_iff] at h
  refine ⟨registry_transition hs.registry h, membership_transition hs.membership h, ?_,
    keyspaces_transition hs.keyspaces h ?_⟩
  · cases h with
    | updateSettings _ _ _ => exact hallowed
    | _ => exact hs.settings
  · rintro newKeyspace rfl hcount
    rw [policy.minOperators _ hs.settings] at hcount
    exact ⟨hallowed, hcount⟩

theorem Block.Reachable.state {b : Block} (h : b.Reachable policy) :
    Contract.Reachable policy b.state := by
  obtain ⟨env, s₀, hinit, hrun⟩ := h
  refine ⟨env, s₀, hinit, hrun.lift Block.state ?_⟩
  rintro b b' ⟨env, call, event, hallowed, _, h, _⟩
  exact ⟨env, call, event, hallowed, h⟩

/-- The recorded times of a migration: none is in the future, and the last abort was not after the
start of a migration in progress. -/
structure Block.Timely (b : Block) : Prop where
  started : b.state.migration.startedAt ≤ b.time
  aborted : b.state.migration.abortedAt ≤ b.time
  restarted : b.state.migration.pullingOperatorBitmask ≠ 0 →
    b.state.migration.abortedAt ≤ b.state.migration.startedAt

theorem Block.timely_step : Invariant (Block.Step policy) Block.Timely := by
  rintro b b' hb ⟨env, call, event, _, htime, h, heq⟩
  obtain ⟨s', time⟩ := b'
  rw [exec_iff] at h
  cases heq
  have hstarted := hb.started.trans htime
  have haborted := hb.aborted.trans htime
  cases h with
  | startMigration _ _ _ _ _ _ _ _ _ => exact ⟨Nat.le_refl _, haborted, fun _ => haborted⟩
  | @completePull slotIdx _ _ hmem _ _ =>
    exact ⟨hstarted, haborted, fun _ => hb.restarted (ne_zero_of_mem_ones hmem)⟩
  | completeMigration _ _ _ _ _ => exact ⟨hstarted, haborted, fun h => absurd rfl h⟩
  | abortMigration _ _ _ _ => exact ⟨hstarted, Nat.le_refl _, fun h => absurd rfl h⟩
  | _ => exact ⟨hstarted, haborted, hb.restarted⟩

theorem Block.Reachable.timely {b : Block} (h : b.Reachable policy) : b.Timely := by
  obtain ⟨env, s₀, ⟨settings, operators, _, _, _, hinit⟩, hrun⟩ := h
  refine Block.timely_step.run hrun ?_
  obtain ⟨_, _, _, _, _, heq⟩ := initializeCluster_ok hinit
  rw [heq]
  exact ⟨Nat.zero_le _, Nat.zero_le _, fun h => absurd rfl h⟩

theorem Reachable.sound {s : State} (h : Reachable policy s) : Sound policy s := by
  obtain ⟨env, s₀, hinit, hrun⟩ := h
  exact sound_step.run hrun (sound_initial hinit)

end Sound

/-! ## Running a list of calls -/

def execAll (b : Block) : List (Env × Call) → Except Revert Block
  | [] => .ok b
  | (env, call) :: calls => do
    let (s, _) ← exec env call b.state
    execAll ⟨s, env.timestamp⟩ calls

theorem run_execAll {policy : Policy} {calls : List (Env × Call)} {b b' : Block}
    (hallowed : ∀ c ∈ calls, policy.Allows c.2)
    (htimes : (b.time :: calls.map (·.1.timestamp)).Pairwise (· ≤ ·))
    (h : execAll b calls = .ok b') : Run (Block.Step policy) b b' := by
  induction calls generalizing b with
  | nil =>
    cases h
    exact .refl
  | cons c calls ih =>
    obtain ⟨env, call⟩ := c
    rw [execAll, bind_eq_ok] at h
    obtain ⟨⟨s, event⟩, hexec, h⟩ := h
    rw [List.map_cons, List.pairwise_cons] at htimes
    have hstep : Block.Step policy b ⟨s, env.timestamp⟩ :=
      ⟨env, call, event, hallowed _ List.mem_cons_self, htimes.1 _ List.mem_cons_self, hexec, rfl⟩
    refine .head hstep ?_
    exact ih (fun c hc => hallowed c (List.mem_cons_of_mem _ hc)) htimes.2 h

theorem anyCall_execAll {calls : List (Env × Call)} {b b' : Block}
    (h : execAll b calls = .ok b') : Run (Calls anyCall) b.state b'.state := by
  induction calls generalizing b with
  | nil =>
    cases h
    exact .refl
  | cons c calls ih =>
    obtain ⟨env, call⟩ := c
    rw [execAll, bind_eq_ok] at h
    obtain ⟨⟨s, event⟩, hexec, h⟩ := h
    exact .head ⟨env, call, event, trivial, hexec⟩ (ih h)

/-! ## A cluster of six operators -/

/-- A transaction of account `sender` at second `timestamp`. -/
def transaction (sender timestamp : UInt8) : Env where
  sender := BitVec.ofNat 160 (sender.toNat + 1)
  timestamp := timestamp.toNat
  sender_ne_zero := by
    intro h
    have hval := congrArg BitVec.toNat h
    have hlt := sender.toNat_lt
    rw [BitVec.toNat_ofNat, Nat.mod_eq_of_lt (by omega)] at hval
    cases hval
  timestamp_lt := by
    have hlt := timestamp.toNat_lt
    omega

/-- Accounts 0 to 5 operate the cluster that account 99 deployed at second 10. -/
def sixOperators : State :=
  result {} (initializeCluster (transaction 99 10) ⟨100, 5, [0]⟩
    ((List.range 6).map fun i => ⟨BitVec.ofNat 160 (i + 1), [0]⟩))

theorem initialize_sixOperators :
    initializeCluster (transaction 99 10) ⟨100, 5, [0]⟩
      ((List.range 6).map fun i => ⟨BitVec.ofNat 160 (i + 1), [0]⟩) = .ok sixOperators :=
  eq_ok_result (by decide +kernel) _

theorem initial_sixOperators {policy : Policy} (h : policy.settings ⟨100, 5, [0]⟩) :
    Initial policy (transaction 99 10) sixOperators :=
  ⟨_, _, h, by decide, by decide, initialize_sixOperators⟩

/-- What a call makes of a state; the state itself when it reverts. -/
def after (env : Env) (call : Call) (s : State) : State × Event :=
  result (s, .migrationAborted 0 0) (exec env call s)

theorem exec_after (env : Env) (call : Call) (s : State)
    (h : (failure? (exec env call s)).isNone = true) : exec env call s = .ok (after env call s) :=
  eq_ok_result h _

theorem calls_after {allowed : State → Call → Prop} {env : Env} {call : Call} {s : State}
    (hallowed : allowed s call) (h : (failure? (exec env call s)).isNone = true) :
    Calls allowed s (after env call s).1 :=
  ⟨env, call, _, hallowed, exec_after env call s h⟩

end Contract
end Wcn
