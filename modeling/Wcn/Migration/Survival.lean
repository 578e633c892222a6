import Wcn.Migration.Exchange

/-!
# Wcn.Migration.Survival

Acknowledged writes survive a migration.

* `Consistent` — the invariant. Its core is `carried`: a source lets pulls through only when no
  operation of the version before can still change it, so a pull has everything that was written
  with that version.
* `carried_majority` — what a majority of the old replica set had, a majority of the new one has.
* `acked_set_survives` — a `Get` sees every `Set` acknowledged before it, across the migration, if the
  replicas it reads from have imported what they pull.
-/

namespace Wcn
namespace Migration
namespace Survival

open Lib Cluster Storage StorageApi
open Replication (KvOp Call Collector Fresh DelIssued held requests secondaryInUse secondaryIfWrite
  majorityQuorumThreshold rf repairs)
open Contract (Address)
open Contract.Bitmask (Idx)

variable {B D : Type} [LinearOrder B]

/-! ## The invariant -/

structure Consistent (m : Exchange D) (s : State B) : Prop where
  observed : ∀ o, (s.phase o).UpTo s.chain
  routed : ∀ {i call}, s.store.calls i = some call →
    ∃ route, s.route i = some route ∧ Routed m s.chain call.op route
  /-- The version before the migration is only let through until `lastOld`. -/
  admitted : ∀ {i o t}, (i, o, t) ∈ s.admitted → ∃ call route, s.store.calls i = some call ∧
    s.route i = some route ∧ o ∈ route.requests call.op ∧
    (s.chain ≠ .aborted → route.keyspaceVersion = m.version → t.nanos ≤ m.lastOld)
  responses : ∀ {i call route}, s.store.calls i = some call → s.route i = some route →
    call.Sound (route.requests call.op)
  positive : ∀ {i call v}, s.store.calls i = some call → call.op.version? = some v → 0 < v
  acked : ∀ {i call record}, s.store.calls i = some call → call.op = .set record →
    ∀ a ∈ call.sent, record.version ≤ held (s.store.cell a.1)
  /-- A record without a value is the mark of a `Del`, also on its way. -/
  deleted : ∀ {o ctx}, s.store.cell o = some ctx ∨ (o, some ctx) ∈ s.transit →
    ctx.payload = .none → 0 < ctx.version → DelIssued s.store ctx.version
  served : ∀ {q source}, q ∈ s.serving → m.PullsFrom q source →
    m.firstPull ≤ (s.clock source).nanos
  pulled : ∀ {q pulled}, (q, pulled) ∈ s.transit → q ∈ s.serving
  imported : ∀ {q}, q ∈ s.imported → q ∈ s.serving
  /-- Who pulls from a replica that executed a `Set` of the version before has it. -/
  carried : s.chain ≠ .aborted → ∀ {i call route record}, s.store.calls i = some call →
    s.route i = some route → call.op = .set record → route.keyspaceVersion = m.version →
    ∀ a ∈ call.sent, ∀ q, m.PullsFrom q a.1 →
      (∀ pulled, (q, pulled) ∈ s.transit → record.version ≤ held pulled) ∧
      (q ∈ s.imported → record.version ≤ held (s.store.cell q))

section Invariant

variable {m : Exchange D} {s s' : State B}

omit [LinearOrder B] in
theorem consistent_init (clock : Address → OffsetDateTime) :
    Consistent m (State.init clock : State B) where
  observed _ := .inl rfl
  routed h := nomatch h
  admitted h := nomatch h
  responses h := nomatch h
  positive h := nomatch h
  acked h := nomatch h
  deleted h := nomatch h
  served h := nomatch h
  pulled h := nomatch h
  imported h := nomatch h
  carried _ _ _ _ _ h := nomatch h

/-- The route of a call that was there before is the same. -/
theorem Step.route_eq (h : Step m s s') {i : Nat} {call : Call B Address} {route : Route}
    (hcall : s.store.calls i = some call) (hroute : s'.route i = some route) :
    s.route i = some route := by
  obtain ⟨_, _, _, hsame, _⟩ := h.issued hcall
  exact hsame.symm.trans hroute

theorem observed_step (hs : Consistent m s) (h : Step m s s') (o : Address) :
    (s'.phase o).UpTo s'.chain := by
  cases h with
  | transaction hnext => exact (hs.observed o).chain hnext
  | @observe o' phase _ hphase =>
    dsimp only
    by_cases ho : o = o'
    · subst ho
      rwa [Function.update_self]
    · rw [Function.update_of_ne ho]
      exact hs.observed o
  | _ => exact hs.observed o

theorem routed_step (hs : Consistent m s) (h : Step m s s') {i : Nat} {call' : Call B Address}
    (hcall' : s'.store.calls i = some call') :
    ∃ route, s'.route i = some route ∧ Routed m s'.chain call'.op route := by
  rcases h.call hcall' with ⟨_, _, _, _, hrouted⟩ | ⟨call, hcall, hsame, hadv⟩
  · exact hrouted
  · obtain ⟨route, hroute, hrouted⟩ := hs.routed hcall
    refine ⟨route, hsame.trans hroute, ?_⟩
    rw [hadv.op]
    exact hrouted.chain (h.over rfl) (h.over rfl)

theorem admitted_step (hs : Consistent m s) (h : Step m s s') {i : Nat} {o : Address}
    {t : OffsetDateTime} (hmem : (i, o, t) ∈ s'.admitted) :
    ∃ call route, s'.store.calls i = some call ∧ s'.route i = some route ∧
      o ∈ route.requests call.op ∧
      (s'.chain ≠ .aborted → route.keyspaceVersion = m.version → t.nanos ≤ m.lastOld) := by
  have hkept : ∀ {call : Call B Address} {route : Route}, s.store.calls i = some call →
      s.route i = some route → o ∈ route.requests call.op →
      (s'.chain ≠ .aborted → route.keyspaceVersion = m.version → t.nanos ≤ m.lastOld) →
      ∃ call route, s'.store.calls i = some call ∧ s'.route i = some route ∧
        o ∈ route.requests call.op ∧
        (s'.chain ≠ .aborted → route.keyspaceVersion = m.version → t.nanos ≤ m.lastOld) := by
    intro call route hcall hroute ho htime
    obtain ⟨call', hcall', hop, hsame, _⟩ := h.issued hcall
    exact ⟨call', route, hcall', hsame.trans hroute, hop ▸ ho, htime⟩
  rcases h.admitted hmem with hmem | ⟨call, route, view, hcall, hroute, ho, hsees, htimely, haccept⟩
  · obtain ⟨call, route, hcall, hroute, ho, htime⟩ := hs.admitted hmem
    exact hkept hcall hroute ho fun hrunning => htime (h.not_aborted hrunning)
  · refine hkept hcall hroute ho fun hrunning hversion => ?_
    rw [hversion] at haccept
    refine hsees.le_lastOld (fun haborted => ?_) htimely haccept
    have hupto := hs.observed o
    rw [haborted] at hupto
    exact h.not_aborted hrunning hupto.eq_aborted

theorem deleted_step (hs : Consistent m s) (h : Step m s s') {o : Address} {ctx : DataContext B}
    (hcell : s'.store.cell o = some ctx ∨ (o, some ctx) ∈ s'.transit) (hpayload : ctx.payload = .none)
    (hpos : 0 < ctx.version) : DelIssued s'.store ctx.version := by
  have hold : ∀ {o : Address}, s.store.cell o = some ctx ∨ (o, some ctx) ∈ s.transit →
      DelIssued s'.store ctx.version := fun hcell => h.delIssued (hs.deleted hcell hpayload hpos)
  rcases hcell with hcell | hmem
  · rcases h.cell o with heq | ⟨op, now, heq, hissued⟩ | ⟨pulled, now, hpulled, heq⟩
    · exact hold (.inl (heq.symm.trans hcell))
    · rw [heq] at hcell
      rcases Replication.execute_deleted hcell hpayload hpos with hcell | hdel
      · exact hold (.inl hcell)
      · rcases hissued with ⟨i, call, hcall, hop⟩ | ⟨record, hop⟩
        · exact h.delIssued ⟨i, call, hcall, hop.trans hdel⟩
        · rw [hdel] at hop
          cases hop
    · -- what was merged in is stale, or it is the mark of a `Del` itself
      rw [heq, Option.some.injEq, fullMerge, List.foldl_cons, List.foldl_nil] at hcell
      by_cases hle : (pulled.toMergeOp now).timestamp ≤ ((s.store.cell o).getD .default).version
      · rw [DataContext.merge_stale hle] at hcell
        cases hstored : s.store.cell o with
        | none =>
          rw [hstored, Option.getD_none] at hcell
          subst hcell
          cases hpos
        | some ctx' =>
          rw [hstored, Option.getD_some] at hcell
          exact hold (.inl (hstored.trans (congrArg some hcell)))
      · rw [DataContext.merge_fresh (Nat.not_le.mp hle)] at hcell
        have hversion : ctx.version = pulled.version := by
          rw [← hcell, DataContext.version_apply, DataContext.toMergeOp_timestamp]
        rw [hversion] at hpos ⊢
        refine h.delIssued (hs.deleted (.inr hpulled) ?_ hpos)
        cases hp : pulled.payload with
        | none => rfl
        | some value =>
          rw [← hcell, DataContext.toMergeOp, hp] at hpayload
          cases hpayload
  · rcases h.transit hmem with hmem | ⟨source, _, _, hpulled⟩
    · exact hold (.inr hmem)
    · exact hold (.inl hpulled.symm)

theorem acked_step (hs : Consistent m s) (h : Step m s s') {i : Nat} {call' : Call B Address}
    {record : Record B} (hcall' : s'.store.calls i = some call') (hop : call'.op = .set record) :
    ∀ a ∈ call'.sent, record.version ≤ held (s'.store.cell a.1) := by
  intro a ha
  rcases h.call hcall' with ⟨_, hsent, _⟩ | ⟨call, hcall, _, hadv⟩
  · rw [hsent] at ha
    cases ha
  · rw [hadv.op] at hop
    rcases hadv.sent a ha with ha | ⟨_, ⟨now, _, _, hcell⟩, _⟩
    · exact (hs.acked hcall hop a ha).trans (h.held_le a.1)
    · rw [hcell, hop]
      exact Replication.set_le_held_execute record

omit [LinearOrder B] in
/-- A replica from which somebody pulls executes no operation of the version before any more. -/
theorem Consistent.not_serving (hs : Consistent m s) (hrunning : s.chain ≠ .aborted) {i : Nat}
    {route : Route} {a : Address × Response B} {op : KvOp B} (hroute : s.route i = some route)
    (hversion : route.keyspaceVersion = m.version) (hexecuted : Executed s s' i op a)
    {q : Address} (hsource : m.PullsFrom q a.1) : q ∉ s.serving := by
  intro hserving
  have hlate := hs.served hserving hsource
  obtain ⟨t, hadmitted, hfast⟩ := hexecuted.admitted
  obtain ⟨_, route', _, hroute', _, htime⟩ := hs.admitted hadmitted
  cases hroute.symm.trans hroute'
  have hearly := htime hrunning hversion
  rw [Exchange.firstPull] at hlate
  omega

theorem carried_step (hs : Consistent m s) (h : Step m s s') (hrunning : s'.chain ≠ .aborted)
    {i : Nat} {call' : Call B Address} {route : Route} {record : Record B}
    (hcall' : s'.store.calls i = some call') (hroute' : s'.route i = some route)
    (hop : call'.op = .set record) (hversion : route.keyspaceVersion = m.version)
    {a : Address × Response B} (ha : a ∈ call'.sent) {q : Address} (hsource : m.PullsFrom q a.1) :
    (∀ pulled, (q, pulled) ∈ s'.transit → record.version ≤ held pulled) ∧
      (q ∈ s'.imported → record.version ≤ held (s'.store.cell q)) := by
  rcases h.call hcall' with ⟨_, hsent, _⟩ | ⟨call, hcall, _, hadv⟩
  · rw [hsent] at ha
    cases ha
  · have hroute := h.route_eq hcall hroute'
    rw [hadv.op] at hop
    rcases hadv.sent a ha with ha | hexecuted
    · obtain ⟨htransit, himported⟩ :=
        hs.carried (h.not_aborted hrunning) hcall hroute hop hversion a ha q hsource
      constructor
      · intro pulled hmem
        rcases h.transit hmem with hmem | ⟨source, hsource', _, rfl⟩
        · exact htransit pulled hmem
        · rw [← hsource.unique hsource']
          exact hs.acked hcall hop a ha
      · intro hmem
        rcases h.imported hmem with hmem | ⟨pulled, now, hpulled, hcell⟩
        · exact (himported hmem).trans (h.held_le q)
        · rw [hcell, held_importCell]
          exact (htransit pulled hpulled).trans (Nat.le_max_right _ _)
    · have hnot := hs.not_serving (h.not_aborted hrunning) hroute hversion hexecuted hsource
      obtain ⟨htransit, himported⟩ := hexecuted.kept
      rw [htransit, himported]
      exact ⟨fun pulled hmem => absurd (hs.pulled hmem) hnot,
        fun hmem => absurd (hs.imported hmem) hnot⟩

theorem consistent_step : Invariant (Step (B := B) m) (Consistent m) := by
  intro s s' hs h
  constructor
  case observed => exact observed_step hs h
  case routed => exact routed_step hs h
  case admitted => exact admitted_step hs h
  case responses =>
    intro i call' route hcall' hroute'
    rcases h.call hcall' with ⟨_, hsent, harr, _⟩ | ⟨call, hcall, _, hadv⟩
    · exact .of_new hsent harr
    · have hroute := h.route_eq hcall hroute'
      rw [hadv.op]
      refine (hs.responses hcall hroute).advance hadv.kept (fun a ha => ?_) (hadv.arrivals.imp_right ?_)
      · refine (hadv.sent a ha).imp_right fun hexecuted => ?_
        obtain ⟨t, hadmitted, _⟩ := hexecuted.admitted
        obtain ⟨call'', route', hcall'', hroute'', ho, _⟩ := hs.admitted hadmitted
        cases hcall.symm.trans hcall''
        cases hroute.symm.trans hroute''
        exact ho
      · rintro ⟨a, heq, hnew, ha⟩
        refine ⟨a, heq, hnew, ha.imp_right ?_⟩
        rintro ⟨⟨route', hroute'', ho⟩, he⟩
        cases hroute.symm.trans hroute''
        exact ⟨ho, he⟩
  case positive =>
    intro i call' v hcall' hv
    rcases h.call hcall' with ⟨_, _, _, hpos, _⟩ | ⟨call, hcall, _, hadv⟩
    · exact hpos v hv
    · rw [hadv.op] at hv
      exact hs.positive hcall hv
  case acked => exact acked_step hs h
  case deleted => exact deleted_step hs h
  case served =>
    intro q source hmem hsource
    rcases h.serving hmem with hmem | ⟨source', hsource', hlate⟩
    · exact (hs.served hmem hsource).trans (h.clock source)
    · rwa [hsource.unique hsource']
  case pulled =>
    intro q pulled hmem
    rcases h.transit hmem with hmem | ⟨_, _, hserving, _⟩
    · exact h.serving_mono (hs.pulled hmem)
    · exact h.serving_mono hserving
  case imported =>
    intro q hmem
    rcases h.imported hmem with hmem | ⟨pulled, _, hpulled, _⟩
    · exact h.serving_mono (hs.imported hmem)
    · exact h.serving_mono (hs.pulled hpulled)
  case carried =>
    intro hrunning i call' route record hcall' hroute' hop hversion a ha q hsource
    exact carried_step hs h hrunning hcall' hroute' hop hversion ha hsource

end Invariant

/-! ## Quorums -/

section Quorums

variable {m : Exchange D} {s : State B}

/-- An `Ok` reply was sent by a majority of every replica set in use. -/
theorem Consistent.quorum (hs : Consistent m s) {i : Nat} {call : Call B Address} {route : Route}
    {out : Output B} (hcall : s.store.calls i = some call) (hroute : s.route i = some route)
    (hreply : route.reply call = some (.ok out)) {rs : Replication.ReplicaSet Address}
    (hrs : rs = route.primary ∨ secondaryInUse call.op.operation route.secondary = some rs) :
    Replication.Majority rs fun o => (o, .ok out) ∈ call.sent := by
  rw [Route.reply] at hreply
  split at hreply
  · cases hreply
  · next hcollect =>
    split_ifs at hreply
    exact (hs.responses hcall hroute).quorum (Replication.length_requests_le ..) hcollect
      (Option.some.inj hreply) hrs

end Quorums

/-! ## Majorities of the new replica set -/

section Heirs

variable {m : Exchange D} {writers : List Address}

/-- An operator that was among the writers or pulls from one of them. -/
def inherits (m : Exchange D) (writers : List Address) (q : Address) : Bool :=
  writers.contains q || match shardSource q m.old.operators m.new.operators with
    | .ok (some source) => writers.contains source.id
    | _ => false

theorem inherits_iff {q : Address} :
    inherits m writers q = true ↔ q ∈ writers ∨ ∃ source ∈ writers, m.PullsFrom q source := by
  unfold inherits Exchange.PullsFrom
  rw [Bool.or_eq_true, List.contains_iff_mem]
  refine or_congr_right ?_
  split
  · next source hsource => simp [hsource, and_comm]
  · next hnot =>
    refine iff_of_false Bool.false_ne_true ?_
    rintro ⟨source, _, found, hfound, _⟩
    exact hnot found hfound

theorem Exchange.PullsFrom.mem_joined {q source : Address} (h : m.PullsFrom q source) :
    q ∈ m.joined := by
  obtain ⟨found, hfound, _⟩ := h
  obtain ⟨source', hsource', hsome⟩ := exists_shardSource m.old m.new q
  cases hfound.symm.trans hsource'
  exact Exchange.mem_joined_iff.mpr (hsome.mp rfl)

/-- What a majority of the old replica set had, a majority of the new one has. -/
theorem carried_majority (hnd : writers.Nodup) (hsub : writers ⊆ (ids m.old).operators) :
    writers.length ≤ ((ids m.new).operators.filter (inherits m writers)).length := by
  have hexchange : (ids m.new).operators.countP (inherits m writers) =
      (ids m.old).operators.countP (· ∈ writers) := by
    refine countP_exchange (ids m.old).nodup (ids m.new).nodup ?_ ?_
    · intro x hold _
      rw [Bool.eq_iff_iff, inherits_iff, decide_eq_true_iff, or_iff_left_iff_imp]
      rintro ⟨source, _, hsource⟩
      exact absurd hold (Exchange.mem_joined_iff.mp hsource.mem_joined).2
    · refine forall₂_of_shardSource fun added hadded source hsource => ?_
      have hpulls : m.PullsFrom added.id source.id := ⟨source, hsource, rfl⟩
      have hnot : added.id ∉ writers := fun hmem =>
        (Exchange.mem_joined_iff.mp hpulls.mem_joined).2 (hsub hmem)
      rw [Bool.eq_iff_iff, inherits_iff, decide_eq_true_iff]
      constructor
      · rintro (hmem | ⟨source', hmem, hsource'⟩)
        · exact absurd hmem hnot
        · rwa [hpulls.unique hsource']
      · exact fun hmem => .inr ⟨source.id, hmem, hpulls⟩
  rw [← List.countP_eq_length_filter, hexchange, List.countP_eq_length_filter]
  refine (List.subperm_of_subset hnd fun o ho => ?_).length_le
  exact List.mem_filter.mpr ⟨hsub ho, decide_eq_true ho⟩

end Heirs

/-! ## Reads -/

section Reads

variable {m : Exchange D} {s s' : State B}

/-- The replicas `writers` have executed a `Set`. -/
def Written (i : Nat) (record : Record B) (route : Route) (writers : List Address) (s : State B) :
    Prop :=
  ∃ call, s.store.calls i = some call ∧ call.op = .set record ∧ s.route i = some route ∧
    ∀ o ∈ writers, ∃ response, (o, response) ∈ call.sent

/-- What replicas of `quorum` answered to a `Get` from the replica set `readers` is of version `v` or
newer. -/
def Answered (v : Nat) (quorum : List Address) (g : Nat) (readers : List Address) (s : State B) :
    Prop :=
  ∀ call route, s.store.calls g = some call → s.route g = some route →
    route.primary.operators = readers → call.op = .get →
    ∀ a ∈ call.sent, a.1 ∈ quorum → ∀ out, a.2 = .ok out → Fresh s.store v out

theorem written_step {i : Nat} {record : Record B} {route : Route} {writers : List Address} :
    Invariant (Step (B := B) m) (Written i record route writers) := by
  rintro s s' ⟨call, hcall, hop, hroute, hsent⟩ h
  obtain ⟨call', hcall', hop', hsame, hkept⟩ := h.issued hcall
  refine ⟨call', hcall', hop'.trans hop, hsame.trans hroute, fun o ho => ?_⟩
  obtain ⟨response, hresponse⟩ := hsent o ho
  exact ⟨response, hkept hresponse⟩

theorem inherited_step (m : Exchange D) (i : Nat) (record : Record B) (route : Route)
    (writers : List Address) : Invariant (Step m) fun s =>
      Written i record route writers s ∧ ∀ q ∈ m.joined, q ∈ s.imported := by
  rintro s s' ⟨hwritten, himported⟩ h
  exact ⟨written_step s s' hwritten h, fun q hq => h.imported_mono (himported q hq)⟩

omit [LinearOrder B] in
theorem Written.held_le {i : Nat} {record : Record B} {route : Route} {writers : List Address}
    (h : Written i record route writers s) (hs : Consistent m s) {o : Address} (ho : o ∈ writers) :
    record.version ≤ held (s.store.cell o) := by
  obtain ⟨call, hcall, hop, _, hsent⟩ := h
  obtain ⟨response, hresponse⟩ := hsent o ho
  exact hs.acked hcall hop _ hresponse

omit [LinearOrder B] in
/-- Those who inherited a `Set` of the version before hold it once they have imported. -/
theorem Written.held_le_of_inherits {i : Nat} {record : Record B} {route : Route}
    {writers : List Address} (h : Written i record route writers s) (hs : Consistent m s)
    (hversion : route.keyspaceVersion = m.version) {q : Address}
    (hrunning : q ∈ m.joined → s.chain ≠ .aborted) (himported : q ∈ m.joined → q ∈ s.imported)
    (hq : inherits m writers q = true) : record.version ≤ held (s.store.cell q) := by
  rcases inherits_iff.mp hq with hq | ⟨source, hsource, hpulls⟩
  · exact h.held_le hs hq
  · obtain ⟨call, hcall, hop, hroute, hsent⟩ := h
    obtain ⟨response, hresponse⟩ := hsent source hsource
    have hjoined := hpulls.mem_joined
    have hcarried := hs.carried (hrunning hjoined) hcall hroute hop hversion _ hresponse q hpulls
    exact hcarried.2 (himported hjoined)

theorem answered_step (hs : Consistent m s) (h : Step m s s') {v : Nat} (hpos : 0 < v)
    {quorum : List Address} {g : Nat} {readers : List Address}
    (hanswered : Answered v quorum g readers s)
    (hholds : ∀ route, s.route g = some route → route.primary.operators = readers →
      ∀ call, s.store.calls g = some call → ∀ o ∈ quorum, v ≤ held (s.store.cell o)) :
    Answered v quorum g readers s' := by
  intro call' route hcall' hroute' hreaders hget a ha hmem out hout
  rcases h.call hcall' with ⟨_, hsent, _⟩ | ⟨call, hcall, _, hadv⟩
  · rw [hsent] at ha
    cases ha
  · have hroute := h.route_eq hcall hroute'
    rw [hadv.op] at hget
    rcases hadv.sent a ha with ha | ⟨_, ⟨now, hlive, hresult, _⟩, _⟩
    · exact (hanswered call route hcall hroute hreaders hget a ha hmem out hout).mono h.delIssued
    · rw [hresult, hget] at hout
      have hheld := hholds route hroute hreaders call hcall a.1 hmem
      exact (Replication.fresh_get (fun hcell => hs.deleted (.inl hcell)) hlive hpos hheld hout).mono
        h.delIssued

/-- A `Get` sees what a majority of its replica set holds while it is under way. -/
theorem fresh_of_holds {s₁ s₂ : State B} (hs₁ : Consistent m s₁) (hrun : Run (Step m) s₁ s₂)
    {I : State B → Prop} (hI : Invariant (Step m) I) (hI₁ : I s₁) {v : Nat} (hpos : 0 < v) {g : Nat}
    (hnew : s₁.store.calls g = none) {get : Call B Address} {read : Route}
    (hget : s₂.store.calls g = some get) (hroute : s₂.route g = some read) (hop : get.op = .get)
    {out : Output B} (hanswered : read.reply get = some (.ok out)) {quorum : List Address}
    (hqnd : quorum.Nodup) (hqsub : quorum ⊆ read.primary.operators)
    (hqlen : majorityQuorumThreshold ≤ quorum.length)
    (hholds : ∀ s : State B, Consistent m s → I s → ∀ route, s.route g = some route →
      route.primary.operators = read.primary.operators → ∀ call, s.store.calls g = some call →
      ∀ o ∈ quorum, v ≤ held (s.store.cell o)) :
    Fresh s₂.store v out := by
  have hinvariant : Invariant (Step (B := B) m) fun s =>
      Consistent m s ∧ I s ∧ Answered v quorum g read.primary.operators s := by
    rintro s s' ⟨hs, hi, ha⟩ h
    exact ⟨consistent_step s s' hs h, hI s s' hi h, answered_step hs h hpos ha (hholds s hs hi)⟩
  have hstart : Answered v quorum g read.primary.operators s₁ := by
    intro call route hcall
    rw [hnew] at hcall
    cases hcall
  obtain ⟨hs₂, _, hvisible⟩ := hinvariant.run hrun ⟨hs₁, hI₁, hstart⟩
  obtain ⟨readers, hrnd, hrsub, hrlen, hr⟩ := hs₂.quorum hget hroute hanswered (.inl rfl)
  -- the readers and the quorum share a replica
  obtain ⟨o, hoq, hor⟩ := exists_mem_both hqnd hrnd hqsub hrsub (by
    rw [read.primary.length_operators]
    simp only [majorityQuorumThreshold, rf] at hqlen hrlen ⊢
    omega)
  exact hvisible get read hget hroute rfl hop _ (hr o hor) hoq out rfl

theorem run_aborted {s₁ s₂ : State B} (hrun : Run (Step m) s₁ s₂) (h : s₁.chain = .aborted) :
    s₂.chain = .aborted :=
  Invariant.run (I := fun s : State B => s.chain = .aborted)
    (fun _ _ hs hstep => hstep.over rfl hs) hrun h

end Reads

/-- Acknowledged writes survive a migration. A `Get` that starts after a `Set` was answered `Ok`, and
is answered `Ok` itself, sees a version at least as new or the effect of a `Del` at least as new,
whatever the two coordinators know of the migration. There are two exceptions. The coordinator of the
`Set` has seen the migration complete, and that of the `Get` has not; or the `Get` starts when an
operator that joined the replica set it reads from has not imported yet. -/
theorem acked_set_survives (m : Exchange D) {clock : Address → OffsetDateTime} {s₁ s₂ s₃ : State B}
    (h₁ : Run (Step m) (State.init clock) s₁) (h₂ : Run (Step m) s₁ s₂) (h₃ : Run (Step m) s₂ s₃)
    {i : Nat} {set : Call B Address} {wrote : Route} {record : Record B}
    (hset : s₁.store.calls i = some set) (hwrote : s₁.route i = some wrote)
    (hsetOp : set.op = .set record) {ack : Output B} (hacked : wrote.reply set = some (.ok ack))
    {g : Nat} {get : Call B Address} {read : Route} (hnew : s₂.store.calls g = none)
    (hget : s₃.store.calls g = some get) (hread : s₃.route g = some read) (hgetOp : get.op = .get)
    {out : Output B} (hanswered : read.reply get = some (.ok out))
    (hknown : wrote.primary.operators = (ids m.new).operators →
      read.primary.operators = (ids m.new).operators)
    (himported : read.primary.operators = (ids m.new).operators → ∀ q ∈ m.joined, q ∈ s₂.imported) :
    Fresh s₃.store record.version out := by
  have hs₁ : Consistent m s₁ := consistent_step.run h₁ (consistent_init clock)
  have hs₂ : Consistent m s₂ := consistent_step.run h₂ hs₁
  have hs₃ : Consistent m s₃ := consistent_step.run h₃ hs₂
  have hpos : 0 < record.version := hs₁.positive hset (by rw [hsetOp]; rfl)
  -- the replicas of a quorum of `rs` have executed the `Set`
  have hwriters : ∀ {rs : Replication.ReplicaSet Address},
      rs = wrote.primary ∨ secondaryInUse set.op.operation wrote.secondary = some rs →
      ∃ writers : List Address, writers.Nodup ∧ writers ⊆ rs.operators ∧
        majorityQuorumThreshold ≤ writers.length ∧ Written i record wrote writers s₂ := by
    intro rs hrs
    obtain ⟨writers, hnd, hsub, hlen, hsent⟩ := hs₁.quorum hset hwrote hacked hrs
    have hwritten : Written i record wrote writers s₁ :=
      ⟨set, hset, hsetOp, hwrote, fun o ho => ⟨_, hsent o ho⟩⟩
    exact ⟨writers, hnd, hsub, hlen, written_step.run h₂ hwritten⟩
  -- if they are replicas that the `Get` reads from, they still hold it
  have hdirect : ∀ {rs : Replication.ReplicaSet Address},
      rs = wrote.primary ∨ secondaryInUse set.op.operation wrote.secondary = some rs →
      rs.operators = read.primary.operators → Fresh s₃.store record.version out := by
    intro rs hrs hsame
    obtain ⟨writers, hnd, hsub, hlen, hwritten⟩ := hwriters hrs
    exact fresh_of_holds hs₂ h₃ written_step hwritten hpos hnew hget hread hgetOp hanswered hnd
      (hsame ▸ hsub) hlen fun s hs hw _ _ _ _ _ o ho => hw.held_le hs ho
  obtain ⟨route, hroute, hwroute⟩ := hs₁.routed hset
  cases hwrote.symm.trans hroute
  obtain ⟨route, hroute, hrroute⟩ := hs₃.routed hget
  cases hread.symm.trans hroute
  by_cases hreaders : read.primary.operators = (ids m.new).operators
  · cases hwroute with
    | new hprimary _ _ => exact hdirect (.inl rfl) (hprimary.trans hreaders.symm)
    | both rs _ hsecondary hrs hwrite =>
      refine @hdirect rs (.inr ?_) (hrs.trans hreaders.symm)
      rw [secondaryInUse, if_pos hwrite, hsecondary]
    | old hprimary _ hversion =>
      rcases hversion (by rw [hsetOp]; rfl) with hversion | haborted
      · -- the new replicas have inherited it by the time they are read from
        obtain ⟨writers, hnd, hsub, hlen, hwritten⟩ := hwriters (.inl rfl)
        rw [hprimary] at hsub
        refine fresh_of_holds hs₂ h₃ (inherited_step m i record wrote writers)
          ⟨hwritten, himported hreaders⟩ hpos hnew hget hread hgetOp hanswered
          ((ids m.new).nodup.filter (inherits m writers))
          (hreaders ▸ fun o ho => (List.mem_filter.mp ho).1) (hlen.trans (carried_majority hnd hsub))
          fun s hs hw route hroute hsame call hcall o ho => ?_
        refine hw.1.held_le_of_inherits hs hversion (fun hjoined => ?_) (hw.2 o)
          (List.mem_filter.mp ho).2
        obtain ⟨route', hroute', hrouted⟩ := hs.routed hcall
        cases hroute.symm.trans hroute'
        obtain ⟨hmem, hnot⟩ := Exchange.mem_joined_iff.mp hjoined
        have hold : route.primary.operators ≠ (ids m.old).operators := by
          intro heq
          rw [← hreaders, ← hsame, heq] at hmem
          exact hnot hmem
        cases hrouted with
        | new _ _ hcompleted =>
          rw [hcompleted]
          decide
        | old heq _ _ => exact absurd heq hold
        | both _ heq _ _ _ => exact absurd heq hold
      · cases hrroute with
        | new _ _ hcompleted =>
          rw [run_aborted (h₂.trans h₃) haborted] at hcompleted
          cases hcompleted
        | old heq _ _ => exact hdirect (.inl rfl) (hprimary.trans heq.symm)
        | both _ heq _ _ _ => exact hdirect (.inl rfl) (hprimary.trans heq.symm)
  · have hold : read.primary.operators = (ids m.old).operators := by
      cases hrroute with
      | new heq _ _ => exact absurd heq hreaders
      | old heq _ _ => exact heq
      | both _ heq _ _ _ => exact heq
    cases hwroute with
    | new hprimary _ _ => exact absurd (hknown hprimary) hreaders
    | old hprimary _ _ => exact hdirect (.inl rfl) (hprimary.trans hold.symm)
    | both _ hprimary _ _ _ => exact hdirect (.inl rfl) (hprimary.trans hold.symm)

/-! ## The sixth operator leaves -/

section Example

/-- A replica lets a request through, executes it, and its response arrives at once. -/
def ask (i now : Nat) (s : State B) (o : Address) : State B :=
  { s with
    admitted := (i, o, s.clock o) :: s.admitted
    store := Replication.ask i now s.store o }

/-- What asking leaves alone, and what it does to the records and calls. -/
structure Asked (i now : Nat) (asked : List Address) (s s' : State B) : Prop where
  chain : s'.chain = s.chain
  phase : s'.phase = s.phase
  clock : s'.clock = s.clock
  store : s'.store = asked.foldl (Replication.ask i now) s.store

omit [LinearOrder B] in
theorem asked_foldl (i now : Nat) (asked : List Address) (s : State B) :
    Asked i now asked s (asked.foldl (ask i now) s) := by
  induction asked generalizing s with
  | nil => exact ⟨rfl, rfl, rfl, rfl⟩
  | cons o asked ih =>
    obtain ⟨hchain, hphase, hclock, hstore⟩ := ih (ask i now s o)
    exact ⟨hchain, hphase, hclock, hstore⟩

theorem run_ask {m : Exchange D} {s : State B} {i now : Nat} {call : Call B Address} {route : Route}
    {view : View Settings D} {asked : List Address} (hcall : s.store.calls i = some call)
    (hroute : s.route i = some route) (hsub : asked ⊆ route.requests call.op)
    (hnd : (call.arrivals.map (·.1) ++ asked).Nodup)
    (hlive : ∀ o ∈ asked, ∀ ctx, s.store.cell o = some ctx → ctx.expired now = false)
    (hadmits : ∀ o ∈ asked, Sees m (s.phase o) view ∧
      (s.phase o = .before → (s.clock o).nanos ≤ m.lastOld) ∧
      view.validateStorageOperation route.keyspaceVersion (s.clock o) = .ok true) :
    Run (Step m) s (asked.foldl (ask i now) s) := by
  induction asked generalizing s call with
  | nil => exact .refl
  | cons o asked ih =>
    obtain ⟨ho, hsub⟩ := List.cons_subset.mp hsub
    obtain ⟨-, hasked, hdisj⟩ := List.nodup_append.mp hnd
    have hnew : o ∉ call.arrivals.map (·.1) := fun h => hdisj o h o List.mem_cons_self rfl
    obtain ⟨hsees, htimely, haccept⟩ := hadmits o List.mem_cons_self
    have hfast : (s.clock o).nanos < (s.clock o).nanos + Migration.pullDataLeewayTime := by
      have : (0 : Int) < Migration.pullDataLeewayTime := by decide
      omega
    refine .trans (.tail (.tail (.single (.admitCall hcall hroute ho hsees htimely haccept))
      (.execute hcall List.mem_cons_self hfast (hlive o List.mem_cons_self)))
      (.arrive (Replication.State.setCall_self ..)
        (List.mem_append_right _ (List.mem_singleton.mpr rfl)) hnew)) ?_
    rw [List.foldl_cons]
    simp only [ask, Replication.ask, hcall]
    refine ih (Replication.State.setCall_self ..) hroute hsub (by simpa using hnd)
      (fun o' ho' ctx hctx => ?_) fun o' ho' => hadmits o' (List.mem_cons_of_mem _ ho')
    have hne : o' ≠ o := fun heq => (List.nodup_cons.mp hasked).1 (heq ▸ ho')
    exact hlive o' (List.mem_cons_of_mem _ ho') ctx
      ((Replication.State.setCell_of_ne s.store hne _).symm.trans hctx)

def operator (id : Address) : NodeOperator Unit := ⟨id, some ()⟩

/-- The six operators' first migration, started at second 11: the first operator replaces the sixth. -/
def sixthLeaves : Exchange Unit where
  hash := preferLater
  key := 0
  settings := .default
  startedAt := 11
  version := 0
  old := ⟨[6, 5, 4, 3, 2].map operator, rfl, by decide⟩
  new := ⟨[5, 4, 3, 2, 1].map operator, rfl, by decide⟩

/-- What `Sees` is about, in a form that can be computed. -/
structure Overview where
  settings : Settings
  primary : List (Option Address)
  secondary : Option (List (Option Address))
  sized : Bool
  startedAt : Nat
  keyspaceVersion : Nat
  versionChange : Option VersionChange
deriving DecidableEq

def overview (view : View Settings Unit) : Overview where
  settings := view.settings
  primary := preferred view view.keyspace
  secondary := view.migration.keyspace.map (preferred view)
  sized := (view.keyspace :: view.migration.keyspace.toList).all (5 ≤ ·.operators.card)
  startedAt := view.migration.startedAt
  keyspaceVersion := view.keyspaceVersion
  versionChange := view.versionChange

def overviewIn (phase : Phase) : Overview where
  settings := .default
  primary := (ids (sixthLeaves.primary phase)).operators.map some
  secondary := if phase = .migrating then some ((ids sixthLeaves.new).operators.map some) else none
  sized := true
  startedAt := if phase = .before then 0 else 11
  keyspaceVersion := if phase = .migrating ∨ phase = .completed then 1 else 0
  versionChange :=
    match phase with
    | .before => some ⟨1, 0, 0⟩ -- a cluster that never migrated counts as aborted at second 0
    | .migrating => some ⟨0, 1, 11⟩
    | .completed | .aborted => none

theorem sees_sixthLeaves {phase : Phase} {view : View Settings Unit}
    (h : overview view = overviewIn phase) : Sees sixthLeaves phase view := by
  obtain ⟨hsettings, hprimary, hsecondary, hsized, hstarted, hversion, hchange⟩ :=
    Overview.mk.inj h
  have hcard := List.all_eq_true.mp hsized
  constructor
  case settings => exact hsettings
  case primary =>
    intro found hfound
    obtain ⟨found', hfound', hids⟩ :=
      exists_preferred (of_decide_eq_true (hcard _ List.mem_cons_self)) hprimary
    cases hfound.symm.trans hfound'
    exact hids
  case secondary =>
    intro now found hfound
    cases hkeyspace : view.migration.keyspace with
    | none =>
      obtain ⟨shadowing, _, hfound⟩ := bind_eq_ok.mp hfound
      split_ifs at hfound
      · rw [hkeyspace] at hfound
        cases hfound
      · cases hfound
    | some keyspace =>
      rw [hkeyspace] at hsecondary hcard
      have hpreferred : preferred view keyspace = (ids sixthLeaves.new).operators.map some := by
        split_ifs at hsecondary
        · exact Option.some.inj hsecondary
        · cases hsecondary
      have hlarge := of_decide_eq_true (hcard _ (List.mem_cons_of_mem _ List.mem_cons_self))
      exact secondaryReplicaSet_preferred hlarge hpreferred hkeyspace hfound
  case progress =>
    rw [View.isInProgress_iff]
    constructor
    · rintro ⟨keyspace, hkeyspace⟩
      rw [hkeyspace] at hsecondary
      by_contra hphase
      rw [if_neg hphase] at hsecondary
      cases hsecondary
    · intro hphase
      rw [if_pos hphase] at hsecondary
      obtain ⟨keyspace, hkeyspace, _⟩ := Option.map_eq_some_iff.mp hsecondary
      exact ⟨keyspace, hkeyspace⟩
  case startedAt =>
    intro hphase
    rw [hstarted, hphase]
    rfl
  case version => exact hversion
  case settled =>
    rintro rfl
    exact hchange

/-- The operators that stay and the first one report their pulls. -/
def migrated : Contract.State :=
  [0, 1, 2, 3, 4].foldl
    (fun s i => (Contract.after (Contract.transaction i 20) (.completeMigration 1) s).1)
    Cluster.migrating

/-- A view outside the migration is settled long before second 12. -/
theorem settled_sixthLeaves {phase : Phase} {view : View Settings Unit}
    (hphase : phase = .before ∨ phase = .completed) (h : overview view = overviewIn phase) :
    view.Settled (instant 12000) := by
  obtain ⟨hsettings, _, _, _, _, _, hchange⟩ := Overview.mk.inj h
  intro change hsome
  rw [View.hasPropagated_eq_true, View.effectiveAt, hsettings]
  rw [hchange] at hsome
  rcases hphase with rfl | rfl
  · cases hsome
    decide
  · cases hsome

/-- A coordinator sends an operation with the version it knows to one replica set. -/
def started (i : Nat) (op : KvOp Nat) (phase : Phase) (s : State Nat) : State Nat :=
  { s with
    store := s.store.setCall i ⟨op, [], []⟩
    route := Function.update s.route i
      (some ⟨(overviewIn phase).keyspaceVersion, ids (sixthLeaves.primary phase), none⟩) }

theorem route_started (i : Nat) (op : KvOp Nat) (phase : Phase) (s : State Nat) :
    (started i op phase s).route i =
      some ⟨(overviewIn phase).keyspaceVersion, ids (sixthLeaves.primary phase), none⟩ :=
  Function.update_self ..

theorem step_started {s : State Nat} {i : Nat} {op : KvOp Nat} {phase : Phase}
    {view : View Settings Unit} (hnew : s.store.calls i = none)
    (hpos : ∀ v, op.version? = some v → 0 < v) (hchain : phase.UpTo s.chain)
    (hphase : phase = .before ∨ phase = .completed) (hview : overview view = overviewIn phase) :
    Step sixthLeaves s (started i op phase s) := by
  have hsees := sees_sixthLeaves hview
  have hsettled := settled_sixthLeaves hphase hview
  obtain ⟨_, hprimary, _, hsized, _, hversion, _⟩ := Overview.mk.inj hview
  obtain ⟨found, hfound, hids⟩ := exists_preferred
    (of_decide_eq_true (List.all_eq_true.mp hsized _ List.mem_cons_self)) hprimary
  have hprogress : ¬ view.migration.isInProgress = true := by
    rw [hsees.progress]
    rcases hphase with rfl | rfl <;> decide
  have hidle : view.isSecondaryKeyspaceShadowingOn (instant 12000) = .ok false := by
    rw [View.isSecondaryKeyspaceShadowingOn, if_neg hprogress]
  have hsecondary : secondaryIfWrite preferLater view op.operation 0 (instant 12000) = .ok none := by
    unfold secondaryIfWrite
    split
    · exact View.secondaryReplicaSet_of_not_shadowing preferLater 0 hidle
    · rfl
  have hcurrent := (View.effectiveKeyspaceVersion_eq_current fun h => absurd h hprogress).mpr hsettled
  exact .start hnew hpos hchain hsees (Int.le_refl _) (fun _ => hsettled)
    (hcurrent.trans (congrArg Except.ok hversion)) hfound hsecondary hids rfl

theorem validateStorageOperation_sixthLeaves {phase : Phase} {view : View Settings Unit}
    (hphase : phase = .before ∨ phase = .completed) (h : overview view = overviewIn phase) :
    view.validateStorageOperation (overviewIn phase).keyspaceVersion (instant 12000) = .ok true := by
  obtain ⟨hsettings, _, _, _, _, hversion, hchange⟩ := Overview.mk.inj h
  rcases hphase with rfl | rfl
  · rw [View.validateStorageOperation_eq_ok hchange, View.effectiveAt, hsettings]
    decide
  · rw [View.validateStorageOperation_of_none hchange, hversion]
    rfl

/-- The first operator pulls from the sixth, and the migration completes. -/
def handOver (s : State Nat) : State Nat :=
  { s with
    chain := .completed
    phase := [1, 5, 4].foldl (Function.update · · .completed) (Function.update s.phase 6 .migrating)
    clock := Function.update s.clock 6 (instant 18500)
    store := s.store.setCell 1 (importCell 50 (s.store.cell 6) (s.store.cell 1))
    serving := 1 :: s.serving
    transit := (1, s.store.cell 6) :: s.transit
    imported := 1 :: s.imported }

theorem run_handOver {s : State Nat} {view : View Settings Unit} (hchain : s.chain = .before)
    (hphase : s.phase = fun _ => .before) (hclock : s.clock = fun _ => instant 12000)
    (hview : overview view = overviewIn .migrating) : Run (Step sixthLeaves) s (handOver s) := by
  have hpulls : sixthLeaves.PullsFrom 1 6 := ⟨operator 6, rfl, rfl⟩
  obtain ⟨hsettings, _, _, _, hstarted, hversion, _⟩ := Overview.mk.inj hview
  have hserve : view.validateDataPull 1 (instant 18500) = .ok true := by
    rw [View.validateDataPull_eq_true, View.effectiveAt, hsettings, hstarted]
    exact ⟨(sees_sixthLeaves hview).progress.mpr rfl, by decide, hversion⟩
  let s₁ : State Nat := { s with chain := .migrating }
  let s₂ : State Nat := { s₁ with
    phase := Function.update s.phase 6 .migrating
    clock := Function.update s.clock 6 (instant 18500) }
  let s₃ : State Nat := { s₂ with
    chain := .completed
    store := s.store.setCell 1 (importCell 50 (s.store.cell 6) (s.store.cell 1))
    serving := 1 :: s.serving
    transit := (1, s.store.cell 6) :: s.transit
    imported := 1 :: s.imported }
  have h₁ : Run (Step sixthLeaves) s s₁ := by
    refine .single (.transaction ?_)
    rw [hchain]
    exact List.mem_singleton.mpr rfl
  have h₂ : Run (Step sixthLeaves) s₁ s₂ := by
    refine .tail (.single (.observe (o := 6) ?_ (.inl rfl))) (.tick ?_)
    · rw [show s₁.phase = s.phase from rfl, hphase]
      exact .inr (.inl rfl)
    · dsimp only [s₁]
      rw [hclock]
      decide
  have h₃ : Run (Step sixthLeaves) s₂ s₃ := by
    refine .tail (.tail (.tail (.single (.serve hpulls (sees_sixthLeaves hview) hserve))
      (.pull hpulls List.mem_cons_self)) (.imports List.mem_cons_self)) (.transaction ?_)
    exact List.mem_cons_self
  have h₄ : Run (Step sixthLeaves) s₃ (handOver s) := by
    refine .tail (.tail (.single (.observe (o := 1) ?_ (.inl rfl))) (.observe (o := 5) ?_ (.inl rfl)))
      (.observe (o := 4) ?_ (.inl rfl))
    all_goals
      dsimp only [s₃, s₂]
      rw [hphase]
      exact .inr (.inl (by decide))
  exact h₁.trans (h₂.trans (h₃.trans h₄))

theorem exists_view (s : Contract.State) (phase : Phase)
    (h : (snapshot usualSettings s).toOption.map overview = some (overviewIn phase)) :
    ∃ view : View Settings Unit, overview view = overviewIn phase := by
  obtain ⟨view, _, hview⟩ := Option.map_eq_some_iff.mp h
  exact ⟨view, hview⟩

end Example

/-- A `Set` with the version before the migration reaches three replicas, of which the sixth operator
leaves. The first one pulls from it, the migration completes, and a `Get` is answered by the first
operator and two that stay. -/
theorem acked_set_survives_sixthLeaves :
    let record : Record Nat := ⟨8, 100, 7⟩
    let written := [6, 5, 4].foldl (ask 0 50)
      (started 0 (.set record) .before (State.init fun _ => instant 12000))
    let read := [1, 5, 4].foldl (ask 1 50) (started 1 .get .completed (handOver written))
    Run (Step sixthLeaves) (State.init fun _ => instant 12000) written ∧
      Run (Step sixthLeaves) written (handOver written) ∧
      Run (Step sixthLeaves) (handOver written) read ∧
      Fresh read.store 7 (.record (some record)) := by
  intro record written read
  obtain ⟨before, hbefore⟩ := exists_view Contract.sixOperators .before (by decide +kernel)
  obtain ⟨during, hduring⟩ := exists_view Cluster.migrating .migrating (by decide +kernel)
  obtain ⟨after, hafter⟩ := exists_view migrated .completed (by decide +kernel)
  have hwritten : Asked 0 50 _ _ written := asked_foldl ..
  let stored := [6, 5, 4].foldl (Replication.ask 0 50)
    ((.init : Replication.State Nat Address).setCall 0 ⟨.set record, [], []⟩)
  let imported := stored.setCell 1 (importCell 50 (stored.cell 6) (stored.cell 1))
  have hstored : written.store = stored := hwritten.store
  have himported : (handOver written).store = imported := by rw [handOver, hstored]
  have h₁ : Run (Step sixthLeaves) (State.init fun _ => instant 12000) written := by
    refine .head (step_started rfl ?_ (.inl rfl) (.inl rfl) hbefore) (run_ask
      (Replication.State.setCall_self ..) (route_started ..) (by decide) (by decide) ?_
      fun o _ => ⟨sees_sixthLeaves hbefore, fun _ => ?_,
        validateStorageOperation_sixthLeaves (.inl rfl) hbefore⟩)
    · simp [KvOp.version?, record]
    · intro o _ ctx hctx
      cases hctx
    · exact (by decide : (instant 12000).nanos ≤ sixthLeaves.lastOld)
  have h₂ : Run (Step sixthLeaves) written (handOver written) :=
    run_handOver hwritten.chain hwritten.phase hwritten.clock hduring
  have h₃ : Run (Step sixthLeaves) (handOver written) read := by
    have hadmits : ∀ o ∈ ([1, 5, 4] : List Address),
        Sees sixthLeaves ((handOver written).phase o) after ∧
        ((handOver written).phase o = .before →
          ((handOver written).clock o).nanos ≤ sixthLeaves.lastOld) ∧
        after.validateStorageOperation (overviewIn .completed).keyspaceVersion
          ((handOver written).clock o) = .ok true := by
      intro o ho
      have hknown : (handOver written).phase o = .completed ∧
          (handOver written).clock o = instant 12000 := by
        unfold handOver
        rw [hwritten.phase, hwritten.clock]
        fin_cases ho <;> exact ⟨rfl, rfl⟩
      rw [hknown.1, hknown.2]
      exact ⟨sees_sixthLeaves hafter, fun h => absurd h (by decide),
        validateStorageOperation_sixthLeaves (.inr rfl) hafter⟩
    refine .head (step_started ?_ ?_ (.inl rfl) (.inr rfl) hafter) (run_ask
      (Replication.State.setCall_self ..) (route_started ..) (by decide) (by decide) ?_ hadmits)
    · rw [himported]
      rfl
    · simp [KvOp.version?]
    · rw [started, himported]
      intro o ho ctx hctx
      have hlive : ([1, 5, 4] : List Address).all fun o => (imported.cell o).all (!·.expired 50) := by
        decide +kernel
      simpa [show imported.cell o = some ctx from hctx] using List.all_eq_true.mp hlive o ho
  have hjoined : sixthLeaves.joined = [1] := by decide
  refine ⟨h₁, h₂, h₃, acked_set_survives sixthLeaves h₁ h₂ h₃ (i := 0) rfl rfl rfl
    (by decide +kernel : Route.reply _ _ = some (.ok .none)) (g := 1) rfl rfl rfl rfl
    (by decide +kernel : Route.reply _ _ = some (.ok (.record (some record))))
    (fun h => absurd h (by decide)) fun _ => ?_⟩
  rw [hjoined]
  exact List.forall_mem_singleton.mpr List.mem_cons_self

end Survival
end Migration
end Wcn
