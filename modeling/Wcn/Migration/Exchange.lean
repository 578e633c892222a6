import Wcn.Migration.Handover
import Wcn.Replication.Dispatch
import Wcn.Replication.Visibility

/-!
# Wcn.Migration.Exchange

Reading and writing one key while a migration exchanges its replica set, without expiration or
compaction of the record.

Coordinators and replicas learn of the migration one by one, and every replica has a clock of its own.
A coordinator sends an operation where its view says, with the version its view says. A replica lets
it through to the database by its own view and clock; the database executes it a little later. An
operator that joins the replica set pulls from its source and imports what it pulled. The migration
can complete before that. `Step` has one constructor for each of these.

What the design relies on is in the guards of `Step`: a replica knows of the start once the
propagation latency has passed, and an operation it has let through is executed within the leeway
time.

* `Sees` — what the view of somebody who knows a phase of the migration says. `unshadowed`,
  `le_lastOld` and `firstPull_le` are what coordinators, replicas and sources conclude from it.
* `Step.cell`, `Step.call`, `Step.issued` and their like — what a step can do to each part of the state.
-/

namespace Wcn
namespace Migration
namespace Survival

open Lib Cluster Storage StorageApi
open Replication (KvOp Call Collector Fresh DelIssued held requests secondaryInUse secondaryIfWrite
  majorityQuorumThreshold rf repairs)
open Contract (Address)
open Contract.Bitmask (Idx)

variable {B D : Type}

/-- One migration, and what it does to the replicas of one key. -/
structure Exchange (D : Type) where
  hash : Idx → Nat → UInt64
  key : UInt64
  settings : Settings
  startedAt : Nat
  /-- The keyspace version before the migration. -/
  version : Nat
  old : ReplicaSet D
  new : ReplicaSet D

def ids (rs : ReplicaSet D) : Replication.ReplicaSet Address where
  operators := rs.operators.map NodeOperator.id
  length_operators := (List.length_map _).trans rs.length_operators
  nodup := rs.nodup

/-- How far the migration has come, or how much of it somebody knows. -/
inductive Phase where
  | before
  | migrating
  | completed
  | aborted
deriving DecidableEq

def Phase.next : Phase → List Phase
  | .before => [.migrating]
  | .migrating => [.completed, .aborted]
  | .completed | .aborted => []

/-- The first phase can be known when the chain is in the second one. -/
def Phase.UpTo (phase chain : Phase) : Prop :=
  phase = chain ∨ phase = .before ∨ phase = .migrating ∧ chain ≠ .before

namespace Exchange

/-- The last time at which replicas accept the version before the migration. -/
def lastOld (m : Exchange D) : Int :=
  Duration.fromSecs m.startedAt + m.settings.eventPropagationLatency + m.settings.clockSkew

/-- The first time at which replicas serve data pulls. -/
def firstPull (m : Exchange D) : Int := m.lastOld + Migration.pullDataLeewayTime

/-- Where somebody who knows a phase reads from. -/
def primary (m : Exchange D) : Phase → ReplicaSet D
  | .completed => m.new
  | .before | .migrating | .aborted => m.old

/-- The operator pulls the key from this source. -/
def PullsFrom (m : Exchange D) (operator source : Address) : Prop :=
  ∃ found, shardSource operator m.old.operators m.new.operators = .ok (some found) ∧
    found.id = source

/-- The operators that join the replica set. -/
def joined (m : Exchange D) : List Address :=
  (ids m.new).operators.filter (!(ids m.old).operators.contains ·)

theorem mem_joined_iff {m : Exchange D} {q : Address} :
    q ∈ m.joined ↔ q ∈ (ids m.new).operators ∧ q ∉ (ids m.old).operators := by
  simp [joined]

end Exchange

/-- The view of somebody who knows this phase of the migration. -/
structure Sees (m : Exchange D) (phase : Phase) (view : View Settings D) : Prop where
  settings : view.settings = m.settings
  primary : ∀ found, view.primaryReplicaSet m.hash m.key = .ok found →
    found.map NodeOperator.id = (ids (m.primary phase)).operators
  secondary : ∀ now found, view.secondaryReplicaSet m.hash m.key now = .ok (some found) →
    found.map NodeOperator.id = (ids m.new).operators
  progress : view.migration.isInProgress = true ↔ phase = .migrating
  startedAt : phase = .migrating → view.migration.startedAt = m.startedAt
  version : view.keyspaceVersion =
    if phase = .migrating ∨ phase = .completed then m.version + 1 else m.version
  settled : phase = .completed → view.versionChange = none

/-! ## What views say -/

section Views

variable {m : Exchange D} {phase : Phase} {view : View Settings D} {now t₁ t₂ : OffsetDateTime}

theorem Sees.effectiveAt (h : Sees m phase view) (hphase : phase = .migrating) :
    view.effectiveAt view.migration.startedAt + view.settings.clockSkew = m.lastOld := by
  rw [View.effectiveAt, h.settings, h.startedAt hphase]
  rfl

/-- A coordinator that does not ask the new replicas has put the version before the migration on its
operation, unless it knows that the migration is over. -/
theorem Sees.unshadowed (h : Sees m phase view) {operation : Operation B} {version : Nat}
    (hwrite : operation.isWrite = true) (hclock : t₁.nanos ≤ t₂.nanos)
    (hbefore : phase = .before → view.Settled t₁)
    (hversion : view.effectiveKeyspaceVersion t₁ = .ok version)
    (hsecondary : secondaryIfWrite m.hash view operation m.key t₂ = .ok none) :
    version = m.version ∨ phase = .completed ∨ phase = .aborted := by
  cases hphase : phase with
  | completed => exact .inr (.inl rfl)
  | aborted => exact .inr (.inr rfl)
  | before =>
    have hraised : view.Raised := fun hprogress => by
      rw [h.progress.mp hprogress] at hphase
      cases hphase
    rw [(View.effectiveKeyspaceVersion_eq_current hraised).mpr (hbefore hphase), h.version,
      hphase] at hversion
    exact .inl (Except.ok.inj hversion).symm
  | migrating =>
    have hprogress := h.progress.mpr hphase
    have hchange := View.versionChange_of_progress hprogress
    obtain ⟨_, rfl⟩ := (View.effectiveKeyspaceVersion_eq_ok hchange).mp hversion
    dsimp only
    split_ifs with hstarted
    · -- it has taken effect, so writes are shadowed
      have hshadowing : view.isSecondaryKeyspaceShadowingOn t₂ = .ok true := by
        rw [View.isSecondaryKeyspaceShadowingOn, if_pos hprogress, View.hasPropagated_eq_true]
        exact hstarted.trans hclock
      rw [secondaryIfWrite, if_pos hwrite] at hsecondary
      obtain ⟨_, hnone⟩ := View.exists_of_shadowing hshadowing hsecondary
      cases hnone
    · rw [h.version, if_pos (.inl hphase)]
      exact .inl rfl

/-- When a replica can accept the version before the migration. -/
theorem Sees.le_lastOld (h : Sees m phase view) (hphase : phase ≠ .aborted)
    (htimely : phase = .before → now.nanos ≤ m.lastOld)
    (haccept : view.validateStorageOperation m.version now = .ok true) :
    now.nanos ≤ m.lastOld := by
  cases hp : phase with
  | aborted => exact absurd hp hphase
  | before => exact htimely hp
  | completed =>
    rw [View.validateStorageOperation_of_none (h.settled hp), h.version, if_pos (.inr hp),
      Except.ok.injEq, decide_eq_true_iff] at haccept
    omega
  | migrating =>
    have hchange := View.versionChange_of_progress (h.progress.mpr hp)
    obtain ⟨_, _, haccepted⟩ := (View.validateStorageOperation_eq_ok hchange).mp haccept
    have hdecided := of_decide_eq_true haccepted.symm
    dsimp only at hdecided
    rw [← h.effectiveAt hp]
    split_ifs at hdecided with hearly hlate
    · have : (0 : Int) ≤ view.settings.clockSkew := Int.natCast_nonneg _
      omega
    · exact hlate
    · rw [h.version, if_pos (.inl hp)] at hdecided
      omega

theorem Sees.firstPull_le (h : Sees m phase view) {version : Nat}
    (hpull : view.validateDataPull version now = .ok true) : m.firstPull ≤ now.nanos := by
  obtain ⟨hprogress, htime, _⟩ := View.validateDataPull_eq_true.mp hpull
  rw [h.effectiveAt (h.progress.mp hprogress)] at htime
  exact htime

end Views

/-! ## Steps -/

/-- What a coordinator decided before it sent an operation. -/
structure Route where
  keyspaceVersion : Nat
  primary : Replication.ReplicaSet Address
  secondary : Option (Replication.ReplicaSet Address)

structure State (B : Type) where
  chain : Phase
  /-- How much of the migration each replica knows. -/
  phase : Address → Phase
  clock : Address → OffsetDateTime
  /-- The records of the replicas, and the calls of the coordinators. -/
  store : Replication.State B Address
  route : Nat → Option Route
  /-- The requests that replicas let through: the call, the replica, and its time. -/
  admitted : List (Nat × Address × OffsetDateTime)
  /-- The operators whose pulls their sources let through. -/
  serving : List Address
  /-- What pulls have read, by the pulling operator. -/
  transit : List (Address × Option (DataContext B))
  imported : List Address

def State.init (clock : Address → OffsetDateTime) : State B :=
  ⟨.before, fun _ => .before, clock, .init, fun _ => none, [], [], [], []⟩

/-- The import of what was pulled for the key. -/
def importCell (now : Nat) (pulled cell : Option (DataContext B)) : Option (DataContext B) :=
  match pulled with
  | none => cell
  | some ctx => some (fullMerge cell [ctx.toMergeOp now])

def Route.requests (route : Route) (op : KvOp B) : List Address :=
  Replication.requests op.operation route.primary route.secondary

variable [LinearOrder B]

/-- What the coordinator has replied so far. -/
def Route.reply (route : Route) (call : Call B Address) : Option (Response B) :=
  match (Collector.new route.primary
      (secondaryInUse call.op.operation route.secondary)).collect call.arrivals with
  | none => none
  | some (collector, idx, _) =>
    if collector.verdict.isSome ∨ call.arrivals.length = (route.requests call.op).length then
      some (Replication.reply id call.op.operation collector idx)
    else
      none

inductive Step (m : Exchange D) : State B → State B → Prop where
  | transaction {s : State B} {phase : Phase} :
      phase ∈ s.chain.next → Step m s { s with chain := phase }
  | observe {s : State B} {o : Address} {phase : Phase} :
      (s.phase o).UpTo phase → phase.UpTo s.chain →
      Step m s { s with phase := Function.update s.phase o phase }
  | tick {s : State B} {o : Address} {now : OffsetDateTime} :
      (s.clock o).nanos ≤ now.nanos →
      Step m s { s with clock := Function.update s.clock o now }
  | start {s : State B} {i : Nat} {op : KvOp B} {phase : Phase} {view : View Settings D}
      {t₁ t₂ : OffsetDateTime} {route : Route} {primary : List (NodeOperator D)}
      {secondary : Option (List (NodeOperator D))} :
      s.store.calls i = none → (∀ v, op.version? = some v → 0 < v) →
      phase.UpTo s.chain → Sees m phase view → t₁.nanos ≤ t₂.nanos →
      -- a migration aborted before this one had used the same version
      (phase = .before → view.Settled t₁) →
      view.effectiveKeyspaceVersion t₁ = .ok route.keyspaceVersion →
      view.primaryReplicaSet m.hash m.key = .ok primary →
      secondaryIfWrite m.hash view op.operation m.key t₂ = .ok secondary →
      primary.map NodeOperator.id = route.primary.operators →
      secondary.map (List.map NodeOperator.id) =
        route.secondary.map Replication.ReplicaSet.operators →
      Step m s { s with
        store := s.store.setCall i ⟨op, [], []⟩
        route := Function.update s.route i (some route) }
  | admitCall {s : State B} {i : Nat} {call : Call B Address} {route : Route} {o : Address}
      {view : View Settings D} :
      s.store.calls i = some call → s.route i = some route → o ∈ route.requests call.op →
      Sees m (s.phase o) view →
      -- events reach replicas within the latency
      (s.phase o = .before → (s.clock o).nanos ≤ m.lastOld) →
      view.validateStorageOperation route.keyspaceVersion (s.clock o) = .ok true →
      Step m s { s with admitted := (i, o, s.clock o) :: s.admitted }
  | execute {s : State B} {i : Nat} {call : Call B Address} {o : Address} {t : OffsetDateTime}
      {now : Nat} :
      s.store.calls i = some call → (i, o, t) ∈ s.admitted →
      -- the database is faster than the leeway time
      (s.clock o).nanos < t.nanos + Migration.pullDataLeewayTime →
      (∀ ctx, s.store.cell o = some ctx → ctx.expired now = false) →
      Step m s { s with
        store := (s.store.setCell o (call.op.execute now (s.store.cell o)).1).setCall i
          { call with sent := call.sent ++ [(o, (call.op.execute now (s.store.cell o)).2)] } }
  | arrive {s : State B} {i : Nat} {call : Call B Address} {o : Address} {response : Response B} :
      s.store.calls i = some call → (o, response) ∈ call.sent → o ∉ call.arrivals.map (·.1) →
      Step m s { s with
        store := s.store.setCall i { call with arrivals := call.arrivals ++ [(o, response)] } }
  | fail {s : State B} {i : Nat} {call : Call B Address} {route : Route} {o : Address} {e : Error} :
      s.store.calls i = some call → s.route i = some route → o ∈ route.requests call.op →
      o ∉ call.arrivals.map (·.1) →
      Step m s { s with
        store := s.store.setCall i { call with arrivals := call.arrivals ++ [(o, .error e)] } }
  | repair {s : State B} {i : Nat} {call : Call B Address} {route : Route} {o : Address}
      {record : Record B} {now : Nat} :
      s.store.calls i = some call → s.route i = some route → call.arrivals.length = rf →
      (o, .set record) ∈ repairs call.op.operation route.primary call.arrivals →
      Step m s { s with
        store := s.store.setCell o ((KvOp.set record).execute now (s.store.cell o)).1 }
  | serve {s : State B} {q source : Address} {view : View Settings D} {version : Nat} :
      m.PullsFrom q source → Sees m (s.phase source) view →
      view.validateDataPull version (s.clock source) = .ok true →
      Step m s { s with serving := q :: s.serving }
  | pull {s : State B} {q source : Address} :
      m.PullsFrom q source → q ∈ s.serving →
      Step m s { s with transit := (q, s.store.cell source) :: s.transit }
  | imports {s : State B} {q : Address} {pulled : Option (DataContext B)} {now : Nat} :
      (q, pulled) ∈ s.transit →
      Step m s { s with
        store := s.store.setCell q (importCell now pulled (s.store.cell q))
        imported := q :: s.imported }

/-! ## What a step does -/

section Steps

variable {m : Exchange D} {s s' : State B}

theorem Phase.UpTo.chain {phase : Phase} {chain chain' : Phase} (h : phase.UpTo chain)
    (hnext : chain' ∈ chain.next) : phase.UpTo chain' := by
  unfold UpTo at h ⊢
  cases phase <;> cases chain <;> cases chain' <;> simp_all [Phase.next]

theorem Phase.UpTo.eq_completed {chain : Phase} (h : UpTo .completed chain) : chain = .completed := by
  simpa [UpTo, eq_comm] using h

theorem Phase.UpTo.eq_aborted {chain : Phase} (h : UpTo .aborted chain) : chain = .aborted := by
  simpa [UpTo, eq_comm] using h

/-- The chain keeps the outcome of the migration. -/
theorem Step.chain (h : Step m s s') : s'.chain = s.chain ∨ s'.chain ∈ s.chain.next := by
  cases h with
  | transaction hnext => exact .inr hnext
  | _ => exact .inl rfl

theorem Step.over (h : Step m s s') {phase : Phase} (hphase : phase.next = [])
    (hs : s.chain = phase) : s'.chain = phase := by
  rcases h.chain with heq | hnext
  · exact heq.trans hs
  · rw [hs, hphase] at hnext
    cases hnext

theorem Step.not_aborted (h : Step m s s') (hs' : s'.chain ≠ .aborted) : s.chain ≠ .aborted :=
  fun hs => hs' (h.over rfl hs)

theorem Step.clock (h : Step m s s') (o : Address) :
    (s.clock o).nanos ≤ (s'.clock o).nanos := by
  cases h with
  | @tick o' now hle =>
    by_cases ho : o = o'
    · subst ho
      dsimp only
      rwa [Function.update_self]
    · dsimp only
      rw [Function.update_of_ne ho]
  | _ => exact Int.le_refl _

/-- A record changes by executing an operation, that of a call or a `Set` of read repair, and by
importing a record that was pulled. -/
theorem Step.cell (h : Step m s s') (o : Address) :
    s'.store.cell o = s.store.cell o ∨
    (∃ (op : KvOp B) (now : Nat), s'.store.cell o = (op.execute now (s.store.cell o)).1 ∧
      ((∃ i call, s.store.calls i = some call ∧ call.op = op) ∨ ∃ record, op = .set record)) ∨
    ∃ ctx now, (o, some ctx) ∈ s.transit ∧
      s'.store.cell o = some (fullMerge (s.store.cell o) [ctx.toMergeOp now]) := by
  cases h with
  | @execute i call o' t now hcall _ _ _ =>
    by_cases ho : o = o'
    · subst ho
      exact .inr (.inl ⟨call.op, now, Replication.State.setCell_self .., .inl ⟨i, call, hcall, rfl⟩⟩)
    · exact .inl (Replication.State.setCell_of_ne _ ho _)
  | @repair i call route o' record now _ _ _ _ =>
    by_cases ho : o = o'
    · subst ho
      exact .inr (.inl ⟨.set record, now, Replication.State.setCell_self .., .inr ⟨record, rfl⟩⟩)
    · exact .inl (Replication.State.setCell_of_ne _ ho _)
  | @imports q pulled now hmem =>
    by_cases ho : o = q
    · subst ho
      cases pulled with
      | none => exact .inl (Replication.State.setCell_self ..)
      | some ctx => exact .inr (.inr ⟨ctx, now, hmem, Replication.State.setCell_self ..⟩)
    · exact .inl (Replication.State.setCell_of_ne _ ho _)
  | _ => exact .inl rfl

omit [LinearOrder B] in
theorem held_importCell (now : Nat) (pulled cell : Option (DataContext B)) :
    held (importCell now pulled cell) = max (held cell) (held pulled) := by
  cases pulled with
  | none => simp [importCell, held]
  | some ctx => rw [importCell, Replication.held_fullMerge, DataContext.toMergeOp_timestamp]; rfl

theorem Step.held_le (h : Step m s s') (o : Address) :
    held (s.store.cell o) ≤ held (s'.store.cell o) := by
  rcases h.cell o with heq | ⟨op, now, heq, _⟩ | ⟨ctx, now, _, heq⟩
  · rw [heq]
  · rw [heq]
    exact Replication.held_le_execute op
  · rw [heq, Replication.held_fullMerge]
    exact Nat.le_max_left _ _

/-- The response of a replica that executed an operation it had let through. -/
structure Executed (s s' : State B) (i : Nat) (op : KvOp B) (a : Address × Response B) : Prop where
  admitted : ∃ t, (i, a.1, t) ∈ s.admitted ∧
    (s.clock a.1).nanos < t.nanos + Migration.pullDataLeewayTime
  result : ∃ now, (∀ ctx, s.store.cell a.1 = some ctx → ctx.expired now = false) ∧
    a.2 = (op.execute now (s.store.cell a.1)).2 ∧
    s'.store.cell a.1 = (op.execute now (s.store.cell a.1)).1
  kept : s'.transit = s.transit ∧ s'.imported = s.imported

/-- How a call got from `call` to `call'` in one step. -/
structure Advanced (s s' : State B) (i : Nat) (call call' : Call B Address) : Prop where
  op : call'.op = call.op
  kept : call.sent ⊆ call'.sent
  sent : ∀ a ∈ call'.sent, a ∈ call.sent ∨ Executed s s' i call.op a
  arrivals : call'.arrivals = call.arrivals ∨ ∃ a, call'.arrivals = call.arrivals ++ [a] ∧
    a.1 ∉ call.arrivals.map (·.1) ∧ (a ∈ call.sent ∨
      (∃ route, s.route i = some route ∧ a.1 ∈ route.requests call.op) ∧ ∃ e, a.2 = .error e)

omit [LinearOrder B] in
theorem Advanced.refl (i : Nat) (call : Call B Address) : Advanced s s' i call call :=
  ⟨rfl, List.Subset.refl _, fun _ ha => .inl ha, .inl rfl⟩

/-- Where a coordinator sends an operation, and with which version. -/
inductive Routed (m : Exchange D) (chain : Phase) (op : KvOp B) (route : Route) : Prop where
  | old : route.primary.operators = (ids m.old).operators → route.secondary = none →
      (op.operation.isWrite = true → route.keyspaceVersion = m.version ∨ chain = .aborted) →
      Routed m chain op route
  | both (rs : Replication.ReplicaSet Address) :
      route.primary.operators = (ids m.old).operators → route.secondary = some rs →
      rs.operators = (ids m.new).operators → op.operation.isWrite = true → Routed m chain op route
  | new : route.primary.operators = (ids m.new).operators → route.secondary = none →
      chain = .completed → Routed m chain op route

omit [LinearOrder B] in
theorem Routed.chain {chain chain' : Phase} {op : KvOp B} {route : Route}
    (h : Routed m chain op route) (hcompleted : chain = .completed → chain' = .completed)
    (haborted : chain = .aborted → chain' = .aborted) : Routed m chain' op route := by
  cases h with
  | old hprimary hsecondary hversion =>
    exact .old hprimary hsecondary fun hwrite => (hversion hwrite).imp_right haborted
  | both rs hprimary hsecondary hrs hwrite => exact .both rs hprimary hsecondary hrs hwrite
  | new hprimary hsecondary hchain => exact .new hprimary hsecondary (hcompleted hchain)

omit [LinearOrder B] in
/-- Shadowing is for writes, during the migration. -/
theorem Sees.routed {phase chain : Phase} {view : View Settings D} (h : Sees m phase view)
    (hchain : phase.UpTo chain) {op : KvOp B} {t₁ t₂ : OffsetDateTime} {route : Route}
    {primary : List (NodeOperator D)} {secondary : Option (List (NodeOperator D))}
    (hclock : t₁.nanos ≤ t₂.nanos) (hbefore : phase = .before → view.Settled t₁)
    (hversion : view.effectiveKeyspaceVersion t₁ = .ok route.keyspaceVersion)
    (hprimary : view.primaryReplicaSet m.hash m.key = .ok primary)
    (hsecondary : secondaryIfWrite m.hash view op.operation m.key t₂ = .ok secondary)
    (hids : primary.map NodeOperator.id = route.primary.operators)
    (hids' : secondary.map (List.map NodeOperator.id) =
      route.secondary.map Replication.ReplicaSet.operators) :
    Routed m chain op route := by
  have hoperators : route.primary.operators = (ids (m.primary phase)).operators :=
    hids.symm.trans (h.primary primary hprimary)
  cases secondary with
  | none =>
    have hnone : route.secondary = none := by simpa using hids'.symm
    by_cases hphase : phase = .completed
    · subst hphase
      exact .new hoperators hnone hchain.eq_completed
    · have hold : m.primary phase = m.old := by
        cases phase <;> first | rfl | exact absurd rfl hphase
      rw [hold] at hoperators
      refine .old hoperators hnone fun hwrite => ?_
      rcases h.unshadowed hwrite hclock hbefore hversion hsecondary with hold | hover | hover
      · exact .inl hold
      · exact absurd hover hphase
      · subst hover
        exact .inr hchain.eq_aborted
  | some found =>
    have hwrite : op.operation.isWrite = true := by
      by_contra hread
      rw [secondaryIfWrite, if_neg hread] at hsecondary
      cases hsecondary
    rw [secondaryIfWrite, if_pos hwrite] at hsecondary
    have hmigrating : phase = .migrating := by
      by_contra hphase
      have hoff : view.isSecondaryKeyspaceShadowingOn t₂ = .ok false := by
        rw [View.isSecondaryKeyspaceShadowingOn, if_neg fun hprogress => hphase (h.progress.mp hprogress)]
      cases (View.secondaryReplicaSet_of_not_shadowing m.hash m.key hoff).symm.trans hsecondary
    subst hmigrating
    cases hroute : route.secondary with
    | none =>
      rw [hroute] at hids'
      cases hids'
    | some rs =>
      rw [hroute, Option.map_some, Option.map_some, Option.some.injEq] at hids'
      exact .both rs hoperators hroute (hids'.symm.trans (h.secondary t₂ found hsecondary)) hwrite

/-- A call is either new or was there before the step. -/
theorem Step.call (h : Step m s s') {i : Nat} {call' : Call B Address}
    (hcall' : s'.store.calls i = some call') :
    (s.store.calls i = none ∧ call'.sent = [] ∧ call'.arrivals = [] ∧
        (∀ v, call'.op.version? = some v → 0 < v) ∧
        ∃ route, s'.route i = some route ∧ Routed m s'.chain call'.op route) ∨
      ∃ call, s.store.calls i = some call ∧ s'.route i = s.route i ∧ Advanced s s' i call call' := by
  have hother : s.store.calls i = some call' → s'.route i = s.route i →
      ∃ call, s.store.calls i = some call ∧ s'.route i = s.route i ∧ Advanced s s' i call call' :=
    fun hi hroute => ⟨call', hi, hroute, .refl i call'⟩
  cases h with
  | @start j op phase view t₁ t₂ route primary secondary hj hpos hchain hsees hclock hbefore hversion
      hprimary hsecondary hids hids' =>
    rcases Replication.State.calls_setCall.mp hcall' with ⟨rfl, rfl⟩ | ⟨hi, hcall'⟩
    · exact .inl ⟨hj, rfl, rfl, hpos, route, Function.update_self ..,
        hsees.routed hchain hclock hbefore hversion hprimary hsecondary hids hids'⟩
    · exact .inr (hother hcall' (Function.update_of_ne hi ..))
  | @execute j call o t now hj hadmitted hfast hlive =>
    rcases Replication.State.calls_setCall.mp hcall' with ⟨rfl, rfl⟩ | ⟨_, hcall'⟩
    · refine .inr ⟨call, hj, rfl, rfl, List.subset_append_left _ _, ?_, .inl rfl⟩
      intro a ha
      rcases List.mem_append.mp ha with ha | ha
      · exact .inl ha
      · obtain rfl := List.mem_singleton.mp ha
        exact .inr ⟨⟨t, hadmitted, hfast⟩, ⟨now, hlive, rfl, Replication.State.setCell_self ..⟩,
          rfl, rfl⟩
    · exact .inr (hother hcall' rfl)
  | @arrive j call o response hj hsent hnew =>
    rcases Replication.State.calls_setCall.mp hcall' with ⟨rfl, rfl⟩ | ⟨_, hcall'⟩
    · exact .inr ⟨call, hj, rfl, rfl, List.Subset.refl _, fun _ ha => .inl ha,
        .inr ⟨_, rfl, hnew, .inl hsent⟩⟩
    · exact .inr (hother hcall' rfl)
  | @fail j call route o e hj hroute ho hnew =>
    rcases Replication.State.calls_setCall.mp hcall' with ⟨rfl, rfl⟩ | ⟨_, hcall'⟩
    · exact .inr ⟨call, hj, rfl, rfl, List.Subset.refl _, fun _ ha => .inl ha,
        .inr ⟨_, rfl, hnew, .inr ⟨⟨route, hroute, ho⟩, e, rfl⟩⟩⟩
    · exact .inr (hother hcall' rfl)
  | _ => exact .inr (hother hcall' rfl)

/-- A call stays, with its operation and where it was sent. -/
theorem Step.issued (h : Step m s s') {i : Nat} {call : Call B Address}
    (hcall : s.store.calls i = some call) :
    ∃ call', s'.store.calls i = some call' ∧ call'.op = call.op ∧ s'.route i = s.route i ∧
      call.sent ⊆ call'.sent := by
  have hset : ∀ {j : Nat} {call₀ call₁ : Call B Address} {store : Replication.State B Address},
      store.calls = s.store.calls → s.store.calls j = some call₀ → call₁.op = call₀.op →
      call₀.sent ⊆ call₁.sent → ∃ call', (store.setCall j call₁).calls i = some call' ∧
        call'.op = call.op ∧ s.route i = s.route i ∧ call.sent ⊆ call'.sent := by
    intro j call₀ call₁ store hstore hj hop hsub
    by_cases hi : i = j
    · subst hi
      cases hcall.symm.trans hj
      exact ⟨call₁, Replication.State.setCall_self .., hop, rfl, hsub⟩
    · exact ⟨call, by rw [Replication.State.setCall_of_ne _ hi, hstore, hcall], rfl, rfl,
        List.Subset.refl _⟩
  cases h with
  | @start j op _ _ _ _ route _ _ hj _ _ _ _ _ _ _ _ _ _ =>
    have hi : i ≠ j := by
      rintro rfl
      rw [hcall] at hj
      cases hj
    exact ⟨call, by rw [Replication.State.setCall_of_ne _ hi, hcall], rfl,
      Function.update_of_ne hi .., List.Subset.refl _⟩
  | execute hj _ _ _ => exact hset rfl hj rfl (List.subset_append_left _ _)
  | arrive hj _ _ => exact hset rfl hj rfl (List.Subset.refl _)
  | fail hj _ _ _ => exact hset rfl hj rfl (List.Subset.refl _)
  | _ => exact ⟨call, hcall, rfl, rfl, List.Subset.refl _⟩

theorem Exchange.PullsFrom.unique {q source source' : Address} (h : m.PullsFrom q source)
    (h' : m.PullsFrom q source') : source = source' := by
  obtain ⟨found, hfound, rfl⟩ := h
  obtain ⟨found', hfound', rfl⟩ := h'
  cases hfound.symm.trans hfound'
  rfl

theorem Step.admitted (h : Step m s s') {i : Nat} {o : Address} {t : OffsetDateTime}
    (hmem : (i, o, t) ∈ s'.admitted) :
    (i, o, t) ∈ s.admitted ∨ ∃ call route view, s.store.calls i = some call ∧
      s.route i = some route ∧ o ∈ route.requests call.op ∧ Sees m (s.phase o) view ∧
      (s.phase o = .before → t.nanos ≤ m.lastOld) ∧
      view.validateStorageOperation route.keyspaceVersion t = .ok true := by
  cases h with
  | @admitCall j call route o' view hcall hroute ho hsees htimely haccept =>
    rcases List.mem_cons.mp hmem with heq | hmem
    · cases heq
      exact .inr ⟨call, route, view, hcall, hroute, ho, hsees, htimely, haccept⟩
    · exact .inl hmem
  | _ => exact .inl hmem

theorem Step.serving (h : Step m s s') {q : Address} (hmem : q ∈ s'.serving) :
    q ∈ s.serving ∨ ∃ source, m.PullsFrom q source ∧ m.firstPull ≤ (s'.clock source).nanos := by
  cases h with
  | @serve q' source view version hsource hsees hpull =>
    rcases List.mem_cons.mp hmem with rfl | hmem
    · exact .inr ⟨source, hsource, hsees.firstPull_le hpull⟩
    · exact .inl hmem
  | _ => exact .inl hmem

theorem Step.serving_mono (h : Step m s s') {q : Address} (hmem : q ∈ s.serving) :
    q ∈ s'.serving := by
  cases h with
  | serve _ _ _ => exact List.mem_cons_of_mem _ hmem
  | _ => exact hmem

theorem Step.imported_mono (h : Step m s s') {q : Address} (hmem : q ∈ s.imported) :
    q ∈ s'.imported := by
  cases h with
  | imports _ => exact List.mem_cons_of_mem _ hmem
  | _ => exact hmem

theorem Step.transit (h : Step m s s') {q : Address} {pulled : Option (DataContext B)}
    (hmem : (q, pulled) ∈ s'.transit) :
    (q, pulled) ∈ s.transit ∨
      ∃ source, m.PullsFrom q source ∧ q ∈ s.serving ∧ pulled = s.store.cell source := by
  cases h with
  | @pull q' source hsource hserving =>
    rcases List.mem_cons.mp hmem with heq | hmem
    · cases heq
      exact .inr ⟨source, hsource, hserving, rfl⟩
    · exact .inl hmem
  | _ => exact .inl hmem

theorem Step.imported (h : Step m s s') {q : Address} (hmem : q ∈ s'.imported) :
    q ∈ s.imported ∨ ∃ pulled now, (q, pulled) ∈ s.transit ∧
      s'.store.cell q = importCell now pulled (s.store.cell q) := by
  cases h with
  | @imports q' pulled now hpulled =>
    rcases List.mem_cons.mp hmem with rfl | hmem
    · exact .inr ⟨pulled, now, hpulled, Replication.State.setCell_self ..⟩
    · exact .inl hmem
  | _ => exact .inl hmem

theorem Step.delIssued (h : Step m s s') {v : Nat} (hdel : DelIssued s.store v) :
    DelIssued s'.store v := by
  obtain ⟨i, call, hcall, hop⟩ := hdel
  obtain ⟨call', hcall', hop', _⟩ := h.issued hcall
  exact ⟨i, call', hcall', hop'.trans hop⟩

end Steps

end Survival
end Migration
end Wcn
