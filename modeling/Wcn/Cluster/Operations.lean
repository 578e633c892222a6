import Wcn.Contract.Authority
import Wcn.Cluster.OnChainSettings
import Wcn.Cluster.OperatorData
import Wcn.Cluster.Plans

/-!
# Wcn.Cluster.Operations

The operations of `Cluster` that write to the contract. Each is checked against the view of the client
first; starting a migration is in `Wcn.Cluster.Plans`.

* `View.send` — the checks, and the call that is made if they pass.
* `checks_agree` — what only one of the two checks.
* `operations_followed` — a contract that is only called this way, from views as old as they may be, has
  only states that nodes can read, and events that they can follow; but for maintenances.
-/

namespace Wcn

namespace Cluster

open Lib
open Contract (Address Env Call Enabled transaction sixOperators after)
open Contract.Bitmask
open OperatorData (Operator Node PeerIds FF1 EncryptionKey)

variable {P D : Type}

/-! ## Checks of the client -/

/-- What `Cluster` writes to the contract, without `start_migration`. -/
inductive ClusterOperation (P : Type) where
  | completeMigration (id : Nat)
  | abortMigration (id : Nat)
  | startMaintenance
  | finishMaintenance
  | addNodeOperator (operator : Operator P (Node P))
  | updateNodeOperator (operator : Operator P (Node P))
  | removeNodeOperator (id : Address)
  | updateSettings (newSettings : Settings)
  | transferOwnership (newOwner : Address)
  | acceptOwnership

inductive OperationError where
  | noSigner
  | notOwner
  | unauthorized
  | inKeyspace
  | noAvailableSlots
  | dataTooLarge (value limit : Nat)
  | refused (e : View.Error)
deriving DecidableEq

def smartContractSigner : Option Address → Except OperationError Address
  | some signer => .ok signer
  | none => .error .noSigner

def validateData (data : Bytes) (settings : Settings) : Except OperationError Unit :=
  if settings.maxNodeOperatorDataBytes.toNat < data.length then
    .error (.dataTooLarge data.length settings.maxNodeOperatorDataBytes.toNat)
  else
    .ok ()

def NodeOperators.requireNotExists (operators : NodeOperators D) (id : Address) :
    Except OperationError Unit :=
  if operators.contains id then .error (.refused (.operatorAlreadyExists id)) else .ok ()

def NodeOperators.requireNotFull (operators : NodeOperators D) : Except OperationError Unit :=
  if operators.slots.length < maxOperators ∨ operators.slots.any Option.isNone then
    .ok ()
  else
    .error .noAvailableSlots

def SmartContract.NodeOperator.intoContract (operator : SmartContract.NodeOperator) :
    Contract.NodeOperator :=
  ⟨operator.id, operator.data⟩

namespace View

section Send

variable (ids : PeerIds P) (ff1 : FF1) (key : EncryptionKey) (view : View Settings D)
  (signer : Option Address)

def requireOwner (address : Address) : Except OperationError Unit :=
  if address ≠ view.owner then .error .notOwner else .ok ()

def completeMigration (id : Nat) : Except OperationError Call := do
  let signer ← smartContractSigner signer
  (view.checkCompleteMigration signer id).mapError .refused
  .ok (.completeMigration id)

def abortMigration (id : Nat) : Except OperationError Call := do
  let signer ← smartContractSigner signer
  view.requireOwner signer
  view.requireMigration.mapError .refused
  (view.requireId id).mapError .refused
  .ok (.abortMigration id)

def startMaintenance : Except OperationError Call := do
  let signer ← smartContractSigner signer
  if ¬ (view.nodeOperators.contains signer ∨ signer = view.owner) then
    .error .unauthorized
  else
    view.requireNoMigration.mapError .refused
    view.requireNoMaintenance.mapError .refused
    .ok (.setMaintenance true)

def finishMaintenance : Except OperationError Call := do
  let signer ← smartContractSigner signer
  match view.maintenance with
  | none => .error (.refused .noMaintenance)
  | some slot =>
    if ¬ (signer = slot ∨ signer = view.owner) then
      .error .unauthorized
    else
      .ok (.setMaintenance false)

def addNodeOperator (operator : Operator P (Node P)) : Except OperationError Call := do
  let signer ← smartContractSigner signer
  view.requireOwner signer
  view.nodeOperators.requireNotExists operator.id
  view.nodeOperators.requireNotFull
  let operator := operator.tryIntoSc ids ff1 key
  validateData operator.data view.settings
  .ok (.addNodeOperator operator.intoContract)

def updateNodeOperator (operator : Operator P (Node P)) : Except OperationError Call := do
  let signer ← smartContractSigner signer
  if ¬ (signer = operator.id ∨ signer = view.owner) then
    .error .unauthorized
  else
    let _ ← (view.requireIdx operator.id).mapError .refused
    let operator := operator.tryIntoSc ids ff1 key
    validateData operator.data view.settings
    .ok (.updateNodeOperatorData operator.id operator.data)

/-- The only operation for the owner that does not look at the signer. -/
def removeNodeOperator (id : Address) : Except OperationError Call := do
  let idx ← (view.requireIdx id).mapError .refused
  if idx ∈ view.keyspace.operators then
    .error .inKeyspace
  else if view.migration.keyspace.any (idx ∈ ·.operators) then
    .error .inKeyspace
  else
    .ok (.removeNodeOperator id)

def updateSettings (newSettings : Settings) : Except OperationError Call := do
  let signer ← smartContractSigner signer
  view.requireOwner signer
  .ok (.updateSettings newSettings.intoSc.intoContract)

def transferOwnership (newOwner : Address) : Except OperationError Call := do
  let signer ← smartContractSigner signer
  view.requireOwner signer
  .ok (.transferOwnership newOwner)

def send : ClusterOperation P → Except OperationError Call
  | .completeMigration id => view.completeMigration signer id
  | .abortMigration id => view.abortMigration signer id
  | .startMaintenance => view.startMaintenance signer
  | .finishMaintenance => view.finishMaintenance signer
  | .addNodeOperator operator => view.addNodeOperator ids ff1 key signer operator
  | .updateNodeOperator operator => view.updateNodeOperator ids ff1 key signer operator
  | .removeNodeOperator id => view.removeNodeOperator id
  | .updateSettings newSettings => view.updateSettings signer newSettings
  | .transferOwnership newOwner => view.transferOwnership signer newOwner
  | .acceptOwnership => .ok .acceptOwnership

end Send

end View

/-- `Cluster::deploy`, up to the arguments for the constructor. Neither conversion fails. -/
def deploy (ids : PeerIds P) (ff1 : FF1) (key : EncryptionKey) (initialSettings : Settings)
    (initialOperators : List (Operator P (Node P))) :
    Except NodeOperators.CreationError (Contract.Settings × List Contract.NodeOperator) := do
  let operators ← NodeOperators.fromSlots
    (initialOperators.map fun operator => some ⟨operator.id, some operator⟩)
  .ok (initialSettings.intoSc.intoContract, operators.slots.filterMap fun slot =>
    (slot.bind (·.data)).map fun operator => (operator.tryIntoSc ids ff1 key).intoContract)

/-! ## What passes -/

section Passes

variable (ids : PeerIds P) (ff1 : FF1) (key : EncryptionKey)

/-- The call for an operation. -/
def ClusterOperation.call : ClusterOperation P → Call
  | .completeMigration id => .completeMigration id
  | .abortMigration id => .abortMigration id
  | .startMaintenance => .setMaintenance true
  | .finishMaintenance => .setMaintenance false
  | .addNodeOperator operator => .addNodeOperator (operator.tryIntoSc ids ff1 key).intoContract
  | .updateNodeOperator operator =>
    .updateNodeOperatorData operator.id (operator.tryIntoSc ids ff1 key).data
  | .removeNodeOperator id => .removeNodeOperator id
  | .updateSettings newSettings => .updateSettings newSettings.intoSc.intoContract
  | .transferOwnership newOwner => .transferOwnership newOwner
  | .acceptOwnership => .acceptOwnership

/-- What an operation requires of the view. -/
def View.Passes (view : View Settings D) (signer : Address) : ClusterOperation P → Prop
  | .completeMigration id =>
    (∃ idx, view.nodeOperators.getIdx signer = some idx ∧ view.migration.isPulling idx = true) ∧
      view.migration.isInProgress = true ∧ id = view.migration.id
  | .abortMigration id =>
    signer = view.owner ∧ view.migration.isInProgress = true ∧ id = view.migration.id
  | .startMaintenance =>
    (view.nodeOperators.contains signer = true ∨ signer = view.owner) ∧
      view.migration.isInProgress = false ∧ view.maintenance = none
  | .finishMaintenance =>
    ∃ slot, view.maintenance = some slot ∧ (signer = slot ∨ signer = view.owner)
  | .addNodeOperator operator =>
    signer = view.owner ∧ view.nodeOperators.contains operator.id = false ∧
      (view.nodeOperators.slots.length < maxOperators ∨
        view.nodeOperators.slots.any Option.isNone = true) ∧
      (operator.tryIntoSc ids ff1 key).data.length ≤ view.settings.maxNodeOperatorDataBytes.toNat
  | .updateNodeOperator operator =>
    (signer = operator.id ∨ signer = view.owner) ∧
      view.nodeOperators.contains operator.id = true ∧
      (operator.tryIntoSc ids ff1 key).data.length ≤ view.settings.maxNodeOperatorDataBytes.toNat
  | .removeNodeOperator id =>
    ∃ idx, view.nodeOperators.getIdx id = some idx ∧ idx ∉ view.keyspace.operators ∧
      ∀ keyspace, view.migration.keyspace = some keyspace → idx ∉ keyspace.operators
  | .updateSettings _ | .transferOwnership _ => signer = view.owner
  | .acceptOwnership => True

variable {ids ff1 key} {view : View Settings D} {signer : Address} {call : Call}

theorem View.requireOwner_eq_ok {u : Unit} :
    view.requireOwner signer = .ok u ↔ signer = view.owner := by
  rw [View.requireOwner]
  split_ifs with h
  · exact iff_of_false (by simp) h
  · exact iff_of_true rfl (not_not.mp h)

theorem NodeOperators.requireNotExists_eq_ok {operators : NodeOperators D} {id : Address} {u : Unit} :
    operators.requireNotExists id = .ok u ↔ operators.contains id = false := by
  rw [NodeOperators.requireNotExists]
  split_ifs with h
  · exact iff_of_false (by simp) (by simp [h])
  · exact iff_of_true rfl (Bool.eq_false_iff.mpr h)

theorem NodeOperators.requireNotFull_eq_ok {operators : NodeOperators D} {u : Unit} :
    operators.requireNotFull = .ok u ↔
      operators.slots.length < maxOperators ∨ operators.slots.any Option.isNone = true := by
  rw [NodeOperators.requireNotFull]
  split_ifs with h
  · exact iff_of_true rfl h
  · exact iff_of_false (by simp) h

theorem validateData_eq_ok {data : Bytes} {settings : Settings} {u : Unit} :
    validateData data settings = .ok u ↔ data.length ≤ settings.maxNodeOperatorDataBytes.toNat := by
  rw [validateData]
  split_ifs with h
  · exact iff_of_false (by simp) (Nat.not_le.mpr h)
  · exact iff_of_true rfl (Nat.le_of_not_lt h)

theorem NodeOperators.contains_iff {operators : NodeOperators D} {id : Address} :
    operators.contains id = true ↔ ∃ idx, operators.getIdx id = some idx :=
  Option.isSome_iff_exists

/-- An operation is sent if it passes. -/
theorem View.send_eq_ok {operation : ClusterOperation P} :
    view.send ids ff1 key (some signer) operation = .ok call ↔
      view.Passes ids ff1 key signer operation ∧ call = operation.call ids ff1 key := by
  have hsigner {α : Type} (f : Address → Except OperationError α) :
      (smartContractSigner (some signer) >>= f) = f signer := rfl
  cases operation with
  | completeMigration id =>
    simp only [View.send, View.completeMigration, hsigner, View.checkCompleteMigration, bind_eq_ok,
      mapError_eq_ok, View.requireIdx_eq_ok, View.requireMigration_eq_ok, View.requireId_eq_ok,
      View.requirePulling_eq_ok, Except.ok.injEq, View.Passes, ClusterOperation.call]
    constructor
    · rintro ⟨_, ⟨idx, hidx, _, hprogress, _, hid, hpulling⟩, rfl⟩
      exact ⟨⟨⟨idx, hidx, hpulling⟩, hprogress, hid⟩, rfl⟩
    · rintro ⟨⟨⟨idx, hidx, hpulling⟩, hprogress, hid⟩, rfl⟩
      exact ⟨(), ⟨idx, hidx, (), hprogress, (), hid, hpulling⟩, rfl⟩
  | abortMigration id =>
    simp only [View.send, View.abortMigration, hsigner, bind_eq_ok, mapError_eq_ok,
      View.requireOwner_eq_ok, View.requireMigration_eq_ok, View.requireId_eq_ok, exists_const,
      Except.ok.injEq, View.Passes, ClusterOperation.call, and_assoc, eq_comm (a := call)]
  | startMaintenance =>
    simp only [View.send, View.startMaintenance, hsigner, ite_error_eq_ok, not_not, bind_eq_ok,
      mapError_eq_ok, View.requireNoMigration_eq_ok, View.requireNoMaintenance_eq_ok, exists_const,
      Except.ok.injEq, View.Passes, ClusterOperation.call, and_assoc, eq_comm (a := call)]
  | finishMaintenance =>
    simp only [View.send, View.finishMaintenance, hsigner, View.Passes, ClusterOperation.call]
    cases view.maintenance with
    | none => simp
    | some slot =>
      simp only [ite_error_eq_ok, not_not, Option.some.injEq, exists_eq_left', Except.ok.injEq,
        eq_comm (a := call)]
  | addNodeOperator operator =>
    simp only [View.send, View.addNodeOperator, hsigner, bind_eq_ok, View.requireOwner_eq_ok,
      NodeOperators.requireNotExists_eq_ok, NodeOperators.requireNotFull_eq_ok, validateData_eq_ok,
      exists_const, Except.ok.injEq, View.Passes, ClusterOperation.call, and_assoc, eq_comm (a := call)]
  | updateNodeOperator operator =>
    simp only [View.send, View.updateNodeOperator, hsigner, ite_error_eq_ok, not_not, bind_eq_ok,
      mapError_eq_ok, View.requireIdx_eq_ok, validateData_eq_ok, exists_const, Except.ok.injEq,
      View.Passes, ClusterOperation.call, NodeOperators.contains_iff, exists_and_right, and_assoc,
      eq_comm (a := call)]
    rfl
  | removeNodeOperator id =>
    have hsecondary (idx : Idx) : ¬ view.migration.keyspace.any (idx ∈ ·.operators) ↔
        ∀ keyspace, view.migration.keyspace = some keyspace → idx ∉ keyspace.operators := by
      cases view.migration.keyspace <;> simp
    simp only [View.send, View.removeNodeOperator, bind_eq_ok, mapError_eq_ok, View.requireIdx_eq_ok,
      ite_error_eq_ok, hsecondary, Except.ok.injEq, View.Passes, ClusterOperation.call, ← and_assoc,
      exists_and_right, eq_comm (a := call)]
  | updateSettings newSettings =>
    simp only [View.send, View.updateSettings, hsigner, bind_eq_ok, View.requireOwner_eq_ok,
      exists_const, Except.ok.injEq, View.Passes, ClusterOperation.call, eq_comm (a := call)]
  | transferOwnership newOwner =>
    simp only [View.send, View.transferOwnership, hsigner, bind_eq_ok, View.requireOwner_eq_ok,
      exists_const, Except.ok.injEq, View.Passes, ClusterOperation.call, eq_comm (a := call)]
  | acceptOwnership =>
    simp only [View.send, Except.ok.injEq, View.Passes, ClusterOperation.call, true_and,
      eq_comm (a := call)]

end Passes

/-! ## Two checks -/

/-- The keyspace a contract starts with has the one strategy there is. -/
theorem replicationStrategy_initial (n : Nat) :
    (⟨fill n, 0⟩ : Contract.Keyspace).replicationStrategy = 0 := rfl

/-- Calls with what clients put into them. -/
def clientPolicy : Contract.Policy where
  settings settings := ∃ own : Settings, settings = own.intoSc.intoContract
  keyspace keyspace := keyspace.replicationStrategy = 0
  minOperators := by
    rintro _ ⟨own, rfl⟩
    rfl
  initial := replicationStrategy_initial

section Agreement

variable {cfg : Config Settings D} {s : Contract.State} {view : View Settings D} {env : Env}

theorem Tracks.contains_iff (hv : Tracks cfg s view) (hs : Contract.Registry s) {a : Address} :
    view.nodeOperators.contains a = true ↔ a ≠ 0 ∧ s.IsOperator a := by
  rw [NodeOperators.contains_iff]
  constructor
  · rintro ⟨idx, hidx⟩
    obtain ⟨hmem, rfl⟩ := hv.getIdx_eq_some.mp hidx
    refine ⟨(hs.occupied idx).mp hmem, ?_⟩
    rw [Contract.State.IsOperator, hs.indexed idx hmem]
  · rintro ⟨ha, hop⟩
    exact ⟨_, hv.getIdx_of_isOperator hs ha hop⟩

/-- Both look for a free slot in the same slots. -/
theorem Tracks.not_full_iff (hv : Tracks cfg s view)
    (hlength : view.nodeOperators.slots.length ≤ maxOperators) :
    (view.nodeOperators.slots.length < maxOperators ∨
        view.nodeOperators.slots.any Option.isNone = true) ↔
      s.operatorBitmask ≠ BitVec.allOnes 256 := by
  have hslot (idx : Idx) : view.nodeOperators.slots[idx.val]?.join = none ↔
      idx ∉ ones s.operatorBitmask := by
    have hshows := hv.shows.operators idx
    rw [NodeOperators.getByIdx, operatorAt] at hshows
    rw [hshows]
    split_ifs with hmem <;> simp [hmem]
  have hfree : s.operatorBitmask ≠ BitVec.allOnes 256 ↔ ∃ idx, idx ∉ ones s.operatorBitmask := by
    constructor
    · intro hfull
      exact ⟨_, (findFirstUnset_notMem hfull).1⟩
    · rintro ⟨idx, hidx⟩ hfull
      rw [hfull, mem_ones, BitVec.getLsbD_allOnes] at hidx
      exact hidx (decide_eq_true idx.isLt)
  rw [hfree]
  constructor
  · rintro (hlt | hnone)
    · exact ⟨⟨_, hlt⟩, (hslot _).mp (by rw [List.getElem?_eq_none (Nat.le_refl _)]; rfl)⟩
    · obtain ⟨slot, hmem, hslotNone⟩ := List.any_eq_true.mp hnone
      obtain ⟨i, hi⟩ := List.mem_iff_getElem?.mp hmem
      have hlt := (List.getElem?_eq_some_iff.mp hi).1
      refine ⟨⟨i, hlt.trans_le hlength⟩, (hslot _).mp ?_⟩
      rw [hi, Option.isNone_iff_eq_none.mp hslotNone]
      rfl
  · rintro ⟨idx, hidx⟩
    rcases Nat.lt_or_ge idx.val view.nodeOperators.slots.length with hlt | hge
    · refine .inr (List.any_eq_true.mpr ⟨_, List.getElem_mem hlt, ?_⟩)
      have hnone := (hslot idx).mpr hidx
      rw [List.getElem?_eq_getElem hlt] at hnone
      rw [Option.isNone_iff_eq_none]
      exact hnone
    · exact .inl (hge.trans_lt idx.isLt)

theorem Tracks.maxData (hcodec : cfg.settings = Settings.tryFromSc) (hv : Tracks cfg s view)
    (hs : Contract.Sound clientPolicy s) :
    s.settings.maxOperatorDataBytes = view.settings.maxNodeOperatorDataBytes.toNat := by
  obtain ⟨own, hown⟩ := hs.settings
  have hsettings := hv.shows.settings
  rw [hcodec, hown] at hsettings
  have hread : Settings.tryFromSc (.ofContract own.intoSc.intoContract) = .ok own.truncated :=
    own.tryFromSc_intoSc
  rw [← Except.ok.inj (hread.symm.trans hsettings), hown]
  rfl

variable (ids : PeerIds P) (ff1 : FF1) (key : EncryptionKey)

/-- What only the contract checks. -/
def Unchecked (env : Env) (s : Contract.State) : ClusterOperation P → Prop
  | .finishMaintenance =>
    (env.sender = s.owner ∨ s.IsOperator env.sender) ∧ s.version + 1 < 2 ^ 128
  | .addNodeOperator operator => operator.id ≠ 0 ∧ s.version + 1 < 2 ^ 128
  | .removeNodeOperator _ =>
    env.sender = s.owner ∧ 5 < countSet s.operatorBitmask ∧ s.version + 1 < 2 ^ 128
  | .transferOwnership _ => True
  | .acceptOwnership => s.pendingOwner = env.sender
  | _ => s.version + 1 < 2 ^ 128

/-- What only the client refuses. -/
def ClientOnly (s : Contract.State) : ClusterOperation P → Prop
  | .startMaintenance => s.migration.pullingOperatorBitmask ≠ 0
  | .finishMaintenance => s.maintenanceSlot = 0
  | .updateNodeOperator operator => operator.id = 0
  | .removeNodeOperator id => id = 0
  | _ => False

variable {ids ff1 key} {operation : ClusterOperation P}

/-- What passes is accepted, if the contract's own checks pass. -/
theorem View.Passes.enabled_iff (hcodec : cfg.settings = Settings.tryFromSc)
    (hs : Contract.Sound clientPolicy s) (hv : Tracks cfg s view)
    (hlength : view.nodeOperators.slots.length ≤ maxOperators) (howner : view.owner = s.owner)
    (h : view.Passes ids ff1 key env.sender operation) :
    Enabled env s (operation.call ids ff1 key) ↔ Unchecked env s operation := by
  have hmax := hv.maxData hcodec hs
  cases operation with
  | completeMigration id =>
    obtain ⟨⟨idx, hidx, hpulling⟩, _, hid⟩ := h
    obtain ⟨_, hop⟩ := (hv.contains_iff hs.registry).mp (NodeOperators.contains_iff.mpr ⟨idx, hidx⟩)
    obtain ⟨_, rfl⟩ := hv.slot_of_getIdx hs.registry hidx rfl
    rw [hv.shows.migration] at hid
    exact ⟨fun henabled => henabled.2.2.2,
      fun hversion => ⟨hid, hop, hv.isPulling.mp hpulling, hversion⟩⟩
  | abortMigration id =>
    obtain ⟨hsender, hprogress, hid⟩ := h
    have hpulling := hv.isInProgress.mp hprogress
    rw [hv.shows.migration] at hid
    exact ⟨fun henabled => henabled.2.2.2.2, fun hversion =>
      ⟨hid, hsender.trans howner, hpulling, hs.membership.started hpulling, hversion⟩⟩
  | startMaintenance =>
    obtain ⟨hsender, _, hfree⟩ := h
    rw [hv.contains_iff hs.registry, howner] at hsender
    exact ⟨fun henabled => henabled.2.2, fun hversion =>
      ⟨hv.maintenance_eq_none.mp hfree, hsender.symm.imp_right And.right, hversion⟩⟩
  | finishMaintenance =>
    obtain ⟨slot, hslot, hsender⟩ := h
    have hheld := hv.shows.maintenance.symm.trans hslot
    rw [holder] at hheld
    split_ifs at hheld
    cases hheld
    rw [howner] at hsender
    exact ⟨fun henabled => henabled.2, fun hrest => ⟨hsender.imp_left Eq.symm, hrest⟩⟩
  | addNodeOperator operator =>
    obtain ⟨hsender, hnew, hroom, hdata⟩ := h
    rw [← Bool.not_eq_true, hv.contains_iff hs.registry, not_and] at hnew
    constructor
    · rintro ⟨_, _, haddr, _, _, _, hversion⟩
      exact ⟨haddr, hversion⟩
    · rintro ⟨haddr, hversion⟩
      have hunregistered : s.operatorSlotIndexes operator.id = 0 := by
        by_contra hne
        exact hnew haddr (hs.registry.registered _ hne)
      refine ⟨hsender.trans howner, (hv.not_full_iff hlength).mp hroom, haddr, hunregistered, ?_,
        ⟨List.cons_ne_nil _ _, hmax ▸ hdata⟩, hversion⟩
      intro hslot
      refine hnew haddr ?_
      rw [Contract.State.IsOperator, hunregistered]
      exact hslot
  | updateNodeOperator operator =>
    obtain ⟨hsender, hknown, hdata⟩ := h
    rw [howner] at hsender
    exact ⟨fun henabled => henabled.2.2.2, fun hversion => ⟨hsender,
      ⟨List.cons_ne_nil _ _, hmax ▸ hdata⟩, ((hv.contains_iff hs.registry).mp hknown).2, hversion⟩⟩
  | removeNodeOperator id =>
    obtain ⟨idx, hidx, hprimary, hsecondary⟩ := h
    obtain ⟨_, hop⟩ := (hv.contains_iff hs.registry).mp (NodeOperators.contains_iff.mpr ⟨idx, hidx⟩)
    obtain ⟨_, rfl⟩ := hv.slot_of_getIdx hs.registry hidx rfl
    rw [hv.shows.keyspace] at hprimary
    have hmin := clientPolicy.minOperators _ hs.settings
    constructor
    · rintro ⟨hsender, _, hcount, _, _, hversion⟩
      exact ⟨hsender, hmin ▸ hcount, hversion⟩
    · rintro ⟨hsender, hcount, hversion⟩
      refine ⟨hsender, hop, hmin.symm ▸ hcount, fun hpulling => ?_, fun hidle => ?_, hversion⟩
      · exact (Contract.State.forall_keyspaces
          (p := fun keyspace => s.operatorSlotIndexes id ∉ ones keyspace.operatorBitmask) hpulling
          (hs.membership.started hpulling)).mpr ⟨hprimary, hsecondary _ (hv.keyspace_eq_some hpulling)⟩
      · rw [Contract.State.primaryKeyspace_idle hidle] at hprimary
        exact hprimary
  | updateSettings newSettings =>
    refine ⟨fun henabled => henabled.2.2, fun hversion => ⟨h.trans howner, ?_, hversion⟩⟩
    exact five_le_countSet hs
  | transferOwnership newOwner => exact iff_of_true (h.trans howner) trivial
  | acceptOwnership => exact Iff.rfl

/-- What the contract accepts passes, but for what only the client refuses. -/
theorem View.passes_iff (hcodec : cfg.settings = Settings.tryFromSc)
    (hs : Contract.Sound clientPolicy s) (hv : Tracks cfg s view)
    (hlength : view.nodeOperators.slots.length ≤ maxOperators) (howner : view.owner = s.owner)
    (h : Enabled env s (operation.call ids ff1 key)) :
    view.Passes ids ff1 key env.sender operation ↔ ¬ ClientOnly s operation := by
  have hmax := hv.maxData hcodec hs
  cases operation with
  | completeMigration id =>
    obtain ⟨hid, hop, hpulling, _⟩ := h
    refine iff_of_true ⟨⟨_, hv.getIdx_of_isOperator hs.registry env.sender_ne_zero hop,
      hv.isPulling.mpr hpulling⟩, hv.isInProgress.mpr (ne_zero_of_mem_ones hpulling), ?_⟩ not_false
    rw [hv.shows.migration]
    exact hid
  | abortMigration id =>
    obtain ⟨hid, hsender, hpulling, _, _⟩ := h
    refine iff_of_true ⟨hsender.trans howner.symm, hv.isInProgress.mpr hpulling, ?_⟩ not_false
    rw [hv.shows.migration]
    exact hid
  | startMaintenance =>
    obtain ⟨hfree, hsender, _⟩ := h
    rw [ClientOnly, ← hv.isInProgress, Bool.not_eq_true]
    refine ⟨fun hpasses => hpasses.2.1, fun hidle => ⟨?_, hidle, hv.maintenance_eq_none.mpr hfree⟩⟩
    rw [hv.contains_iff hs.registry, howner]
    exact hsender.symm.imp_left fun hop => ⟨env.sender_ne_zero, hop⟩
  | finishMaintenance =>
    obtain ⟨hheld, _, _⟩ := h
    rw [ClientOnly, View.Passes, hv.shows.maintenance, holder, howner]
    split_ifs with hslot
    · simp [hslot]
    · simp only [Option.some.injEq, exists_eq_left', hslot, not_false_eq_true, iff_true]
      exact hheld.imp_left Eq.symm
  | addNodeOperator operator =>
    obtain ⟨hsender, hroom, haddr, hunregistered, hslot, ⟨_, hdata⟩, _⟩ := h
    refine iff_of_true ⟨hsender.trans howner.symm, ?_, (hv.not_full_iff hlength).mpr hroom,
      hmax ▸ hdata⟩ not_false
    rw [← Bool.not_eq_true, hv.contains_iff hs.registry, not_and, Contract.State.IsOperator,
      show s.operatorSlotIndexes operator.id = 0 from hunregistered]
    exact fun _ => hslot
  | updateNodeOperator operator =>
    obtain ⟨hsender, ⟨_, hdata⟩, hop, _⟩ := h
    rw [ClientOnly, View.Passes, hv.contains_iff hs.registry, howner]
    exact ⟨fun hpasses => hpasses.2.1.1, fun haddr => ⟨hsender, ⟨haddr, hop⟩, hmax ▸ hdata⟩⟩
  | removeNodeOperator id =>
    obtain ⟨_, hop, _, hmigrating, hidle, _⟩ := h
    constructor
    · rintro ⟨idx, hidx, _⟩ rfl
      rw [hv.getIdx_zero hs.registry] at hidx
      cases hidx
    · intro haddr
      refine ⟨_, hv.getIdx_of_isOperator hs.registry haddr hop, ?_, fun keyspace hkeyspace => ?_⟩
      · rw [hv.shows.keyspace]
        by_cases hpulling : s.migration.pullingOperatorBitmask = 0
        · rw [Contract.State.primaryKeyspace_idle hpulling]
          exact hidle hpulling
        · rw [Contract.State.primaryKeyspace_migrating hpulling]
          exact hmigrating hpulling _
      · have hpulling := hv.isInProgress.mp (View.isInProgress_iff.mpr ⟨keyspace, hkeyspace⟩)
        cases (hv.keyspace_eq_some hpulling).symm.trans hkeyspace
        exact hmigrating hpulling _
  | updateSettings newSettings => exact iff_of_true (h.1.trans howner.symm) not_false
  | transferOwnership newOwner => exact iff_of_true (Eq.trans h howner.symm) not_false
  | acceptOwnership => exact iff_of_true trivial not_false

/-- A client and the contract check the same, as long as the client's view is in sync, up to
`Unchecked` and `ClientOnly`: an operation that passes the client's checks is accepted unless the
former says no, and one that the contract accepts passes unless the latter says so. -/
theorem checks_agree (ids : PeerIds P) (ff1 : FF1) (key : EncryptionKey)
    (hcodec : cfg.settings = Settings.tryFromSc) (hs : Contract.Reachable clientPolicy s)
    (hreached : View.Reached cfg view) (hv : Tracks cfg s view) (howner : view.owner = s.owner)
    (env : Env) (operation : ClusterOperation P) :
    (view.send ids ff1 key (some env.sender) operation = .ok (operation.call ids ff1 key) →
      ((∃ s' event, Contract.exec env (operation.call ids ff1 key) s = .ok (s', event)) ↔
        Unchecked env s operation)) ∧
    ((∃ s' event, Contract.exec env (operation.call ids ff1 key) s = .ok (s', event)) →
      (view.send ids ff1 key (some env.sender) operation = .ok (operation.call ids ff1 key) ↔
        ¬ ClientOnly s operation)) := by
  rw [View.send_eq_ok, and_iff_left rfl, Contract.enabled_iff]
  exact ⟨View.Passes.enabled_iff hcodec hs.sound hv hreached.length_slots howner,
    View.passes_iff hcodec hs.sound hv hreached.length_slots howner⟩

end Agreement

/-! ## Clients only -/

/-- The states the contract has been in. -/
structure History where
  state : Contract.State
  past : List Contract.State

def History.states (history : History) : List Contract.State := history.state :: history.past

section Clients

variable (ids : PeerIds P) (ff1 : FF1) (key : EncryptionKey) (cfg : Config Settings D)

/-- A call that has passed the checks against a view. -/
inductive Checked (view : View Settings D) (signer : Address) : Call → Prop where
  | startMigration {plan : Plan} {sent : Contract.Keyspace} :
      view.startMigration (some signer) plan = .ok sent → Checked view signer (.startMigration sent)
  | operation {operation : ClusterOperation P} {call : Call} :
      view.send ids ff1 key (some signer) operation = .ok call → Checked view signer call

/-- The view of a client can be of any state up to now. -/
def ClientCall (history : History) (env : Env) (call : Call) : Prop :=
  env.timestamp ≤ Migration.maxTimestamp ∧
    ∃ seen ∈ history.states, ∃ view, Tracks cfg seen view ∧ Checked ids ff1 key view env.sender call

def ClientStep (history history' : History) : Prop :=
  ∃ (env : Env) (call : Call) (event : Contract.Event), ClientCall ids ff1 key cfg history env call ∧
    Contract.exec env call history.state = .ok (history'.state, event) ∧
    history'.past = history.states

/-- The maintenance is started or finished when it can be. -/
def InTurn (s : Contract.State) : Call → Prop
  | .setMaintenance true => s.migration.pullingOperatorBitmask = 0
  | .setMaintenance false => s.maintenanceSlot ≠ 0
  | _ => True

variable {ids ff1 key cfg} {history history' : History} {env : Env} {call : Call}

theorem Keyspace.strategy_intoContract (keyspace : Keyspace) :
    keyspace.intoContract.replicationStrategy = 0 := by
  rw [keyspace.eq_mk]
  rfl

theorem Checked.allows {view : View Settings D} {signer : Address}
    (h : Checked ids ff1 key view signer call) : clientPolicy.Allows call := by
  cases h with
  | startMigration hsent =>
    obtain ⟨keyspace, _, hsent⟩ := bind_eq_ok.mp hsent
    cases hsent
    exact keyspace.strategy_intoContract
  | @operation operation _ hsent =>
    obtain ⟨_, rfl⟩ := View.send_eq_ok.mp hsent
    cases operation with
    | updateSettings newSettings => exact ⟨newSettings, rfl⟩
    | _ => trivial

/-- Clients do not name the zero address as an operator. -/
theorem Checked.guarded_iff {seen s : Contract.State} {view : View Settings D}
    (hseen : Contract.Registry seen) (hv : Tracks cfg seen view)
    (htime : env.timestamp ≤ Migration.maxTimestamp)
    (h : Checked ids ff1 key view env.sender call) : Guarded env s call ↔ InTurn s call := by
  cases h with
  | startMigration _ => exact iff_of_true htime trivial
  | @operation operation _ hsent =>
    obtain ⟨hpasses, rfl⟩ := View.send_eq_ok.mp hsent
    cases operation with
    | abortMigration id => exact iff_of_true htime trivial
    | updateNodeOperator operator =>
      exact iff_of_true ((hv.contains_iff hseen).mp hpasses.2.1).1 trivial
    | removeNodeOperator id =>
      obtain ⟨idx, hidx, _⟩ := hpasses
      exact iff_of_true
        ((hv.contains_iff hseen).mp (NodeOperators.contains_iff.mpr ⟨idx, hidx⟩)).1 trivial
    | _ => exact Iff.rfl

/-- A view in sync does not let a maintenance pass out of turn. -/
theorem Checked.inTurn {s : Contract.State} {view : View Settings D} (hv : Tracks cfg s view)
    {signer : Address} (h : Checked ids ff1 key view signer call) : InTurn s call := by
  cases h with
  | startMigration _ => trivial
  | @operation operation _ hsent =>
    obtain ⟨hpasses, rfl⟩ := View.send_eq_ok.mp hsent
    cases operation with
    | startMaintenance =>
      have hidle := hpasses.2.1
      rw [← Bool.not_eq_true, hv.isInProgress, not_not] at hidle
      exact hidle
    | finishMaintenance =>
      obtain ⟨slot, hslot, _⟩ := hpasses
      intro hnone
      rw [hv.maintenance_eq_none.mpr hnone] at hslot
      cases hslot
    | _ => trivial

theorem follow_of_client (hcodec : cfg.settings = Settings.tryFromSc)
    (hallowed : clientPolicy.Allows call) : (followPolicy cfg).Allows call := by
  cases call with
  | updateSettings newSettings =>
    obtain ⟨own, rfl⟩ := hallowed
    exact allows_updateSettings hcodec own
  | startMigration newKeyspace => exact hallowed
  | _ => trivial

/-- What holds of every state of such a history. -/
structure Followable (cfg : Config Settings D) (s : Contract.State) : Prop where
  sound : Contract.Sound (followPolicy cfg) s
  startedAt : s.migration.startedAt ≤ Migration.maxTimestamp
  abortedAt : s.migration.abortedAt ≤ Migration.maxTimestamp

theorem Followable.initial (hcodec : cfg.settings = Settings.tryFromSc) {env₀ : Env}
    {s : Contract.State} (h : Contract.Initial clientPolicy env₀ s) : Followable cfg s := by
  obtain ⟨settings, operators, ⟨own, rfl⟩, hnonzero, hdistinct, hinit⟩ := h
  obtain ⟨_, _, _, _, _, heq⟩ := Contract.initializeCluster_ok hinit
  refine ⟨Contract.sound_initial ⟨_, _, allows_updateSettings hcodec own, hnonzero,
    hdistinct, hinit⟩, ?_, ?_⟩
  · rw [heq]
    exact Nat.zero_le _
  · rw [heq]
    exact Nat.zero_le _

theorem Followable.next (hcodec : cfg.settings = Settings.tryFromSc) {s s' : Contract.State}
    {event : Contract.Event} (h : Followable cfg s) (hallowed : clientPolicy.Allows call)
    (htime : env.timestamp ≤ Migration.maxTimestamp)
    (hexec : Contract.exec env call s = .ok (s', event)) : Followable cfg s' := by
  have hsound := Contract.sound_step _ _ h.sound
    ⟨env, call, event, follow_of_client hcodec hallowed, hexec⟩
  cases Contract.exec_iff.mp hexec with
  | startMigration => exact ⟨hsound, htime, h.abortedAt⟩
  | abortMigration => exact ⟨hsound, h.startedAt, htime⟩
  | _ => exact ⟨hsound, h.startedAt, h.abortedAt⟩

theorem followable_step (hcodec : cfg.settings = Settings.tryFromSc) :
    Invariant (ClientStep ids ff1 key cfg) fun history => ∀ s ∈ history.states, Followable cfg s := by
  rintro history history' hall ⟨env, call, event, ⟨htime, _, _, view, _, hchecked⟩, hexec, hpast⟩ s hs
  rcases List.mem_cons.mp hs with rfl | hs
  · exact (hall _ List.mem_cons_self).next hcodec hchecked.allows htime hexec
  · exact hall s (hpast ▸ hs)

theorem Followable.exists_snapshot {s : Contract.State} (h : Followable cfg s) :
    ∃ view, snapshot cfg s = .ok view :=
  (exists_snapshot_iff h.sound).mpr ((readable_iff h.sound).mpr
    ⟨h.startedAt, fun _ _ => h.abortedAt⟩)

/-- The slot map refuses an operator that is there twice. -/
theorem NodeOperators.nodup_of_fromSlots {D : Type} {operators : List (NodeOperator D)}
    {result : NodeOperators D} (h : fromSlots (operators.map some) = .ok result) :
    (operators.map NodeOperator.id).Nodup := by
  obtain ⟨hslots, hconsistent⟩ := fromSlots_ok h
  have hlength := (length_of_fromSlots h).2
  rw [List.length_map] at hlength
  have hidx (i : Nat) (hi : i < operators.length) :
      result.getIdx operators[i].id = some ⟨i, hi.trans_le hlength⟩ := by
    refine (hconsistent _ _).mpr ⟨operators[i], ?_, rfl⟩
    rw [getByIdx, hslots, List.getElem?_map, List.getElem?_eq_getElem hi]
    rfl
  rw [List.Nodup, List.pairwise_map, List.pairwise_iff_getElem]
  intro i j hi hj hlt heq
  have hsame := (hidx i hi).symm.trans (heq ▸ hidx j hj)
  rw [Option.some.injEq, Fin.mk.injEq] at hsame
  exact hlt.ne hsame

/-- The constructor gets operators that are all different. -/
theorem initial_of_deploy {initialSettings : Settings} {initialOperators : List (Operator P (Node P))}
    {settings : Contract.Settings} {operators : List Contract.NodeOperator} {env₀ : Env}
    {s : Contract.State} (hnonzero : ∀ operator ∈ initialOperators, operator.id ≠ 0)
    (hdeploy : deploy ids ff1 key initialSettings initialOperators = .ok (settings, operators))
    (hinit : Contract.initializeCluster env₀ settings operators = .ok s) :
    Contract.Initial clientPolicy env₀ s := by
  obtain ⟨slots, hslots, hargs⟩ := bind_eq_ok.mp hdeploy
  have hdistinct : (initialOperators.map Operator.id).Nodup := by
    have hmap : initialOperators.map Operator.id =
        (initialOperators.map fun operator => (⟨operator.id, some operator⟩ :
          NodeOperator (Operator P (Node P)))).map NodeOperator.id := by
      rw [List.map_map]
      rfl
    rw [← Function.comp_def, ← List.map_map] at hslots
    rw [hmap]
    exact NodeOperators.nodup_of_fromSlots hslots
  have hoperators : operators =
      initialOperators.map fun operator => (operator.tryIntoSc ids ff1 key).intoContract := by
    rw [← (Prod.mk.inj (Except.ok.inj hargs)).2, (NodeOperators.fromSlots_ok hslots).1,
      List.filterMap_map]
    exact congrFun List.filterMap_eq_map initialOperators
  refine ⟨settings, operators, ⟨initialSettings, (Prod.mk.inj (Except.ok.inj hargs)).1.symm⟩, ?_, ?_,
    hinit⟩
  · rw [hoperators, List.forall_mem_map]
    exact hnonzero
  · rw [hoperators, List.map_map]
    exact hdistinct

end Clients

/-- Let a client deploy the contract, and let it only be called by clients that have checked their
operations, each against a view that may be out of date, before the last second that can be
represented. Then nodes can read every state, and a view in sync follows every event, but for that of
a maintenance that is started during a migration or finished when there is none. No client with a view
in sync sends either. -/
theorem operations_followed (ids : PeerIds P) (ff1 : FF1) (key : EncryptionKey)
    {cfg : Config Settings D} (hcodec : cfg.settings = Settings.tryFromSc)
    {initialSettings : Settings} {initialOperators : List (Operator P (Node P))}
    {settings : Contract.Settings} {operators : List Contract.NodeOperator} {env₀ : Env}
    {s₀ : Contract.State} (hnonzero : ∀ operator ∈ initialOperators, operator.id ≠ 0)
    (hdeploy : deploy ids ff1 key initialSettings initialOperators = .ok (settings, operators))
    (hinit : Contract.initializeCluster env₀ settings operators = .ok s₀) {history : History}
    (hrun : Run (ClientStep ids ff1 key cfg) ⟨s₀, []⟩ history) :
    (∃ view, snapshot cfg history.state = .ok view) ∧
    ∀ (env : Env) (call : Call) (s' : Contract.State) (event : Contract.Event)
      (e : SmartContract.Event), ClientCall ids ff1 key cfg history env call →
      Contract.exec env call history.state = .ok (s', event) →
      SmartContract.Event.tryFrom env.timestamp event = some e →
      ∀ view, Tracks cfg history.state view →
        ((∃ view', view.applyEvent cfg e = .ok view' ∧ Tracks cfg s' view') ↔
          InTurn history.state call) ∧
        (Checked ids ff1 key view env.sender call → InTurn history.state call) := by
  have hstep : Invariant (ClientStep ids ff1 key cfg) fun history =>
      ∀ s ∈ history.states, Followable cfg s := followable_step hcodec
  have hall := hstep.run hrun fun s hs =>
    List.mem_singleton.mp hs ▸ .initial hcodec (initial_of_deploy hnonzero hdeploy hinit)
  have hcurrent := hall history.state List.mem_cons_self
  refine ⟨hcurrent.exists_snapshot, ?_⟩
  rintro env call s' event e ⟨htime, seen, hseen, old, hold, hchecked⟩ hexec he view hv
  refine ⟨?_, fun hnow => hnow.inTurn hv⟩
  have hregistry := hcurrent.sound.registry
  have htransition := Contract.exec_iff.mp hexec
  rw [← hchecked.guarded_iff (hall seen hseen).sound.registry hold htime,
    ← acceptable_iff (follow_of_client hcodec hchecked.allows),
    ← accepts_iff hcurrent.sound hcurrent.sound.keyspaces.primary.1 hv htransition he,
    ← exists_applyEvent_iff hv htransition he]
  exact exists_congr fun view' => and_iff_left_of_imp (tracks_applyEvent hregistry hv htransition he)

/-! ## Six operators and their clients -/

/-- Six operators with the same nodes. -/
def sixAlike : List (Operator UInt8 (Node UInt8)) :=
  (List.range 6).map fun i => { OperatorData.twoNodes with id := BitVec.ofNat 160 (i + 1) }

def zeroKey : EncryptionKey := .replicate 32 0

/-- Without the data of operators. -/
def settingsOnly : Config Settings Unit := ⟨Settings.tryFromSc, fun _ => none⟩

def deployArgs : Contract.Settings × List Contract.NodeOperator :=
  result (⟨0, 0, []⟩, []) (deploy OperatorData.byteIds OperatorData.reversing zeroKey .default sixAlike)

theorem deploy_sixAlike :
    deploy OperatorData.byteIds OperatorData.reversing zeroKey .default sixAlike = .ok deployArgs :=
  eq_ok_result (by decide +kernel) _

def deployed : Contract.State :=
  result {} (Contract.initializeCluster (transaction 99 10) deployArgs.1 deployArgs.2)

theorem initialize_deployed :
    Contract.initializeCluster (transaction 99 10) deployArgs.1 deployArgs.2 = .ok deployed :=
  eq_ok_result (by decide +kernel) _

theorem initial_deployed : Contract.Initial clientPolicy (transaction 99 10) deployed :=
  initial_of_deploy (by decide) deploy_sixAlike initialize_deployed

/-- The view that the clients of the new contract have. -/
theorem exists_snapshot_deployed :
    ∃ view, snapshot settingsOnly deployed = .ok view ∧ view.owner = deployed.owner ∧
      view.send OperatorData.byteIds OperatorData.reversing zeroKey (some (transaction 0 11).sender)
        .startMaintenance = .ok (.setMaintenance true) := by
  have hsnapshot : ((snapshot settingsOnly deployed).toOption.bind fun view =>
      if view.owner = deployed.owner then
        (view.send OperatorData.byteIds OperatorData.reversing zeroKey
          (some (transaction 0 11).sender) .startMaintenance).toOption
      else none).isSome = true := by
    decide +kernel
  obtain ⟨call, hcall⟩ := Option.isSome_iff_exists.mp hsnapshot
  obtain ⟨view, hview, hcall⟩ := Option.bind_eq_some_iff.mp hcall
  split_ifs at hcall with howner
  have hsent := toOption_eq_some.mp hcall
  obtain ⟨_, rfl⟩ := View.send_eq_ok.mp hsent
  exact ⟨view, toOption_eq_some.mp hview, howner, hsent⟩

theorem tracks_deployed {view : View Settings Unit}
    (h : snapshot settingsOnly deployed = .ok view) : Tracks settingsOnly deployed view :=
  have hsound := Contract.sound_initial initial_deployed
  (snapshot_mirrors hsound.registry hsound.membership h).tracks

/-- The first operator may start a maintenance. -/
theorem checks_agree_maintenance :
    ∃ s' event, Contract.exec (transaction 0 11) (.setMaintenance true) deployed =
      .ok (s', event) := by
  obtain ⟨view, hview, howner, hsent⟩ := exists_snapshot_deployed
  have hagree := checks_agree OperatorData.byteIds OperatorData.reversing zeroKey rfl
    ⟨_, _, initial_deployed, .refl⟩ (.fetched hview) (tracks_deployed hview) howner
    (transaction 0 11) .startMaintenance
  exact (hagree.1 hsent).mpr (by decide +kernel : deployed.version + 1 < 2 ^ 128)

/-- It does so, and everybody can still read the contract. -/
theorem operations_followed_maintenance :
    ∃ s' event view, Contract.exec (transaction 0 11) (.setMaintenance true) deployed =
      .ok (s', event) ∧ snapshot settingsOnly s' = .ok view ∧ view.maintenance = some 1 := by
  obtain ⟨view, hview, _, hsent⟩ := exists_snapshot_deployed
  have hexec := Contract.exec_after (transaction 0 11) (.setMaintenance true) deployed
    (by decide +kernel)
  have hstep : ClientStep OperatorData.byteIds OperatorData.reversing zeroKey settingsOnly
      ⟨deployed, []⟩ ⟨(after (transaction 0 11) (.setMaintenance true) deployed).1, [deployed]⟩ :=
    ⟨_, _, _, ⟨by decide, deployed, List.mem_cons_self, view, tracks_deployed hview,
      .operation hsent⟩, hexec, rfl⟩
  obtain ⟨⟨view', hview'⟩, _⟩ := operations_followed OperatorData.byteIds OperatorData.reversing
    zeroKey rfl (by decide) deploy_sixAlike initialize_deployed (.single hstep)
  have hsound := Contract.sound_step _ _ (Contract.sound_initial initial_deployed)
    ⟨_, .setMaintenance true, _, trivial, hexec⟩
  have hshows := (snapshot_mirrors hsound.registry hsound.membership hview').tracks.shows
  exact ⟨_, _, view', hexec, hview', hshows.maintenance.trans (by decide +kernel)⟩

end Cluster
end Wcn
