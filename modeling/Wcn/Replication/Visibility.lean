import Wcn.Lib.Runs
import Wcn.Storage.Context
import Wcn.Replication.ReadRepair
import Wcn.Replication.Reply

/-!
# Wcn.Replication.Visibility

Any number of coordinators reading and writing one key of five replicas, without a migration, and
without expiration or compaction of the record.

A call goes out to every replica. A replica executes it when a request reaches it, which may be
late, and more than once when the coordinator retries on another node; a response may be lost, and
the coordinator then records an error. `Step` has one constructor for each of these.

`acked_set_visible`: once a `Set` was answered `Ok`, every later `Get` that is answered `Ok` sees
a version at least as new, or the effect of a `Del` at least as new. The quorum of the `Set` and
that of the `Get` share a replica, and the version a replica holds never decreases.
-/

namespace Wcn
namespace Replication

open StorageApi Lib Storage

variable {B Op : Type}

/-- The operations on a plain record that are considered here. -/
inductive KvOp (B : Type) where
  | get
  | set (record : Record B)
  | del (version : Nat)

namespace KvOp

def operation : KvOp B → Operation B
  | .get => .get
  | .set record => .set record
  | .del version => .del version

def version? : KvOp B → Option Nat
  | .get => none
  | .set record => some record.version
  | .del version => some version

/-- What the database server does with an operation, at local time `now`, on the record stored
under the key. -/
def execute (now : Nat) (cell : Option (DataContext B)) :
    KvOp B → Option (DataContext B) × Response B
  | .get =>
    let record := cell.bind fun ctx =>
      (ctx.intoPayload now).map fun value => ⟨value, ctx.expires, ctx.version⟩
    (cell, .ok (.record record))
  | .set record =>
    (some (fullMerge cell [.set record.value record.expiration record.version]), .ok .none)
  | .del version => (some (fullMerge cell [.del now version]), .ok .none)

end KvOp

/-- One operation under way: the responses replicas have sent, and those that have arrived. -/
structure Call (B Op : Type) where
  op : KvOp B
  sent : List (Op × Response B)
  arrivals : List (Op × Response B)

structure State (B Op : Type) where
  /-- The record each replica holds. -/
  cell : Op → Option (DataContext B)
  calls : Nat → Option (Call B Op)

namespace State

def init : State B Op := ⟨fun _ => none, fun _ => none⟩

def setCell [DecidableEq Op] (s : State B Op) (o : Op) (cell : Option (DataContext B)) :
    State B Op :=
  { s with cell := Function.update s.cell o cell }

def setCall (s : State B Op) (i : Nat) (call : Call B Op) : State B Op :=
  { s with calls := Function.update s.calls i (some call) }

theorem setCall_self (s : State B Op) (i : Nat) (call : Call B Op) :
    (s.setCall i call).calls i = some call :=
  Function.update_self ..

theorem setCall_of_ne (s : State B Op) {i j : Nat} (h : i ≠ j) (call : Call B Op) :
    (s.setCall j call).calls i = s.calls i :=
  Function.update_of_ne h ..

theorem calls_setCall {s : State B Op} {i j : Nat} {call call' : Call B Op} :
    (s.setCall j call).calls i = some call' ↔
      i = j ∧ call = call' ∨ i ≠ j ∧ s.calls i = some call' := by
  by_cases hi : i = j
  · subst hi
    simp [setCall_self]
  · simp [setCall_of_ne s hi, hi]

theorem setCell_self [DecidableEq Op] (s : State B Op) (o : Op) (cell : Option (DataContext B)) :
    (s.setCell o cell).cell o = cell :=
  Function.update_self ..

theorem setCell_of_ne [DecidableEq Op] (s : State B Op) {o o' : Op} (h : o ≠ o')
    (cell : Option (DataContext B)) : (s.setCell o' cell).cell o = s.cell o :=
  Function.update_of_ne h ..

end State

variable [LinearOrder B] [DecidableEq Op]

/-- What the coordinator has replied so far: it replies once its loop breaks, or once all replicas
have answered. -/
def Call.reply (rs : ReplicaSet Op) (call : Call B Op) : Option (Response B) :=
  match (Collector.new rs none).collect call.arrivals with
  | none => none
  | some (collector, idx, _) =>
    if collector.verdict.isSome ∨ call.arrivals.length = rf then
      some (Replication.reply id call.op.operation collector idx)
    else
      none

inductive Step (rs : ReplicaSet Op) : State B Op → State B Op → Prop where
  | start {s : State B Op} {i : Nat} {op : KvOp B} :
      s.calls i = none →
      -- record versions are positive and pairwise distinct
      (∀ v, op.version? = some v →
        0 < v ∧ ∀ j call, s.calls j = some call → call.op.version? ≠ some v) →
      Step rs s (s.setCall i ⟨op, [], []⟩)
  | execute {s : State B Op} {i : Nat} {call : Call B Op} {o : Op} {now : Nat} :
      s.calls i = some call → o ∈ rs.operators →
      -- the record does not expire
      (∀ ctx, s.cell o = some ctx → ctx.expired now = false) →
      Step rs s ((s.setCell o (call.op.execute now (s.cell o)).1).setCall i
        { call with sent := call.sent ++ [(o, (call.op.execute now (s.cell o)).2)] })
  | arrive {s : State B Op} {i : Nat} {call : Call B Op} {o : Op} {response : Response B} :
      s.calls i = some call → (o, response) ∈ call.sent → o ∉ call.arrivals.map (·.1) →
      Step rs s (s.setCall i { call with arrivals := call.arrivals ++ [(o, response)] })
  | fail {s : State B Op} {i : Nat} {call : Call B Op} {o : Op} {e : Error} :
      s.calls i = some call → o ∈ rs.operators → o ∉ call.arrivals.map (·.1) →
      Step rs s (s.setCall i { call with arrivals := call.arrivals ++ [(o, .error e)] })
  | repair {s : State B Op} {i : Nat} {call : Call B Op} {o : Op} {record : Record B} {now : Nat} :
      s.calls i = some call → call.arrivals.length = rf →
      (o, .set record) ∈ repairs call.op.operation rs call.arrivals →
      Step rs s (s.setCell o ((KvOp.set record).execute now (s.cell o)).1)

/-! ## What executing an operation does to a record -/

/-- The version a replica holds, zero without a record. -/
def held (cell : Option (DataContext B)) : Nat := (cell.getD .default).version

section Execute

omit [LinearOrder B]

variable {cell : Option (DataContext B)} {now : Nat}

theorem held_fullMerge (op : MergeOp B) :
    held (some (fullMerge cell [op])) = max (held cell) op.timestamp := by
  simp [held, version_fullMerge, latest]

/-- The version a replica holds never decreases. -/
theorem held_le_execute (op : KvOp B) : held cell ≤ held (op.execute now cell).1 := by
  cases op with
  | get => exact Nat.le_refl _
  | set record =>
    simp only [KvOp.execute, held_fullMerge]
    omega
  | del version =>
    simp only [KvOp.execute, held_fullMerge]
    omega

theorem set_le_held_execute (record : Record B) :
    record.version ≤ held ((KvOp.set record).execute now cell).1 := by
  simp only [KvOp.execute, held_fullMerge]
  exact Nat.le_max_right _ _

/-- A record without a value was there before, or a `Del` of its version just made it. -/
theorem execute_deleted {op : KvOp B} {ctx : DataContext B}
    (h : (op.execute now cell).1 = some ctx) (hpayload : ctx.payload = .none)
    (hpos : 0 < ctx.version) : cell = some ctx ∨ op = .del ctx.version := by
  have hmerge : ∀ mop : MergeOp B, fullMerge cell [mop] = ctx →
      cell = some ctx ∨ ctx = (cell.getD .default).apply mop := by
    intro mop hmop
    rw [fullMerge, List.foldl_cons, List.foldl_nil] at hmop
    by_cases hle : mop.timestamp ≤ (cell.getD .default).version
    · rw [DataContext.merge_stale hle] at hmop
      cases cell with
      | none =>
        rw [← hmop] at hpos
        simp at hpos
      | some ctx' =>
        left
        rw [← hmop, Option.getD_some]
    · rw [DataContext.merge_fresh (Nat.not_le.mp hle)] at hmop
      exact .inr hmop.symm
  cases op with
  | get => exact .inl h
  | set record =>
    rcases hmerge _ (Option.some.inj h) with h | h
    · exact .inl h
    · rw [h] at hpayload
      cases hpayload
  | del version =>
    rcases hmerge _ (Option.some.inj h) with h | h
    · exact .inl h
    · right
      rw [h, DataContext.version_apply]
      rfl

/-- What a `Get` of a record that has not expired returns. -/
theorem execute_get (hlive : ∀ ctx, cell = some ctx → ctx.expired now = false) {v : Nat}
    (hpos : 0 < v) (hv : v ≤ held cell) :
    ∃ ctx, cell = some ctx ∧ v ≤ ctx.version ∧
      ((ctx.payload = .none ∧ (KvOp.get.execute now cell).2 = .ok (.record none)) ∨
        ∃ value, (KvOp.get.execute now cell).2 =
          .ok (.record (some ⟨value, ctx.expires, ctx.version⟩))) := by
  cases cell with
  | none =>
    simp only [held, Option.getD_none, DataContext.version_default] at hv
    omega
  | some ctx =>
    refine ⟨ctx, rfl, hv, ?_⟩
    have hexp := hlive ctx rfl
    cases hp : ctx.payload with
    | none =>
      left
      simp [KvOp.execute, DataContext.intoPayload, hexp, hp, Payload.asOption]
    | some value =>
      right
      exact ⟨value, by simp [KvOp.execute, DataContext.intoPayload, hexp, hp, Payload.asOption]⟩

end Execute

/-! ## Quorums of a call -/

omit [LinearOrder B] in
theorem exists_assignment {l : List (Op × Response B)} (h : (l.map (·.1)).Nodup) :
    ∃ f : Op → Response B, l = (l.map (·.1)).map fun o => (o, f o) := by
  induction l with
  | nil => exact ⟨fun _ => .error .internal, rfl⟩
  | cons a l ih =>
    simp only [List.map_cons, List.nodup_cons] at h
    obtain ⟨f, hf⟩ := ih h.2
    refine ⟨Function.update f a.1 a.2, ?_⟩
    rw [List.map_cons, List.map_cons, Function.update_self]
    congr 1
    refine hf.trans (List.map_congr_left fun o ho => ?_)
    have hne : o ≠ a.1 := fun heq => h.1 (heq ▸ ho)
    rw [Function.update_of_ne hne]

/-- `p` holds of a majority of the replicas. -/
def Majority (rs : ReplicaSet Op) (p : Op → Prop) : Prop :=
  ∃ replicas : List Op, replicas.Nodup ∧ replicas ⊆ rs.operators ∧
    majorityQuorumThreshold ≤ replicas.length ∧ ∀ o ∈ replicas, p o

/-- A quorum that a replica set has found, by the replicas that returned its response. -/
theorem Counted.majority {rs : ReplicaSet Op} {f : Op → Response B} {quorum : Quorum Op}
    {seen : List Op} {filled : List (Response B)} (h : Counted quorum rs f seen filled)
    (hnd : seen.Nodup) {i : Nat} (hidx : quorum.responseIdx = some i) {r : Response B}
    (hr : filled[i]? = some r) : Majority rs fun o => o ∈ seen ∧ f o = r := by
  obtain ⟨r', hr', hmaj⟩ := (h.idx i).mp hidx
  cases hr.symm.trans hr'
  refine ⟨seen.filter fun o => o ∈ rs.operators ∧ f o = r, hnd.filter _, fun o ho => ?_, ?_,
    fun o ho => ?_⟩
  · exact (of_decide_eq_true (List.mem_filter.mp ho).2).1
  · rw [← List.countP_eq_length_filter]
    exact hmaj
  · obtain ⟨hseen, ho⟩ := List.mem_filter.mp ho
    exact ⟨hseen, (of_decide_eq_true ho).2⟩

/-- What is known of the responses to a call that goes to the replicas `asked`. -/
structure Call.Sound (asked : List Op) (call : Call B Op) : Prop where
  members : ∀ a ∈ call.sent, a.1 ∈ asked
  nodup : (call.arrivals.map (·.1)).Nodup
  arrivals : ∀ a ∈ call.arrivals, a ∈ call.sent ∨ a.1 ∈ asked ∧ ∃ e, a.2 = .error e

namespace Call.Sound

variable {asked : List Op} {call call' : Call B Op}

omit [LinearOrder B] [DecidableEq Op] in
theorem of_new (hsent : call.sent = []) (harrivals : call.arrivals = []) : call.Sound asked where
  members a ha := by
    rw [hsent] at ha
    cases ha
  nodup := by
    rw [harrivals]
    exact List.nodup_nil
  arrivals a ha := by
    rw [harrivals] at ha
    cases ha

omit [LinearOrder B] [DecidableEq Op] in
theorem advance (h : call.Sound asked) (hkept : call.sent ⊆ call'.sent)
    (hsent : ∀ a ∈ call'.sent, a ∈ call.sent ∨ a.1 ∈ asked)
    (harrivals : call'.arrivals = call.arrivals ∨ ∃ a, call'.arrivals = call.arrivals ++ [a] ∧
      a.1 ∉ call.arrivals.map (·.1) ∧ (a ∈ call.sent ∨ a.1 ∈ asked ∧ ∃ e, a.2 = .error e)) :
    call'.Sound asked := by
  have hold : ∀ a ∈ call.arrivals, a ∈ call'.sent ∨ a.1 ∈ asked ∧ ∃ e, a.2 = .error e :=
    fun a ha => (h.arrivals a ha).imp_left (hkept ·)
  refine ⟨fun a ha => (hsent a ha).elim (h.members a) id, ?_, ?_⟩
  · rcases harrivals with heq | ⟨a, heq, hnew, _⟩
    · rw [heq]
      exact h.nodup
    · rw [heq, List.map_append, List.map_singleton]
      exact List.concat_eq_append ▸ List.Nodup.concat hnew h.nodup
  · rcases harrivals with heq | ⟨a, heq, _, ha⟩
    · rw [heq]
      exact hold
    · rw [heq]
      intro b hb
      rcases List.mem_append.mp hb with hb | hb
      · exact hold b hb
      · obtain rfl := List.mem_singleton.mp hb
        exact ha.imp_left (hkept ·)

/-- An `Ok` reply was sent by a majority of every replica set in use. -/
theorem quorum (h : call.Sound asked) (hlen : asked.length ≤ rf * 2) {primary : ReplicaSet Op}
    {secondary : Option (ReplicaSet Op)} {collector : Collector B Op} {idx : Option Nat}
    {late : List (Op × Response B)}
    (hcollect : (Collector.new primary secondary).collect call.arrivals =
      some (collector, idx, late)) {out : Output B}
    (hreply : Replication.reply id call.op.operation collector idx = .ok out) {rs : ReplicaSet Op}
    (hrs : rs = primary ∨ secondary = some rs) : Majority rs fun o => (o, .ok out) ∈ call.sent := by
  obtain ⟨f, hf⟩ := exists_assignment h.nodup
  have hasked : call.arrivals.map (·.1) ⊆ asked := by
    intro o ho
    obtain ⟨a, ha, rfl⟩ := List.mem_map.mp ho
    exact (h.arrivals a ha).elim (h.members a) And.left
  have hle := (List.subperm_of_subset h.nodup hasked).length_le.trans hlen
  have hstart : (Collector.new (B := B) primary secondary).verdict = none := rfl
  obtain ⟨_, _, _, seen, filled, hcollect', hseen, ⟨rest, hsplit, -⟩, hend⟩ :=
    collect_seen (seen_new primary secondary f) (call.arrivals.map (·.1)) (by simpa using h.nodup)
      (by simpa using hle) hstart
  rw [← hf, hcollect] at hcollect'
  cases hcollect'
  rw [List.nil_append] at hsplit
  cases idx with
  | none =>
    -- none of these operations is reconciled
    simp only [Replication.reply] at hreply
    cases hop : call.op <;> simp [hop, KvOp.operation, Operation.isWrite, reconcile] at hreply
  | some i =>
    rcases hend with hv | ⟨_, hnone, _⟩
    · obtain ⟨hprimary, hsecondary⟩ := Collector.verdict_eq_some_some.mp hv
      obtain ⟨r, hr, _⟩ := (hseen.primary.idx i).mp hprimary
      obtain rfl : r = .ok out := (reply_quorum hseen hr).symm.trans hreply
      obtain ⟨quorum, hcounted, hidx⟩ : ∃ quorum, Counted quorum rs f seen filled ∧
          quorum.responseIdx = some i := by
        rcases hrs with rfl | hrs
        · exact ⟨_, hseen.primary, hprimary⟩
        · obtain ⟨quorum, hquorum, hcounted⟩ := hseen.exists_counted hrs
          exact ⟨quorum, hcounted, hsecondary quorum hquorum⟩
      have hnd := h.nodup
      rw [← hsplit] at hnd
      obtain ⟨replicas, hrnd, hsub, hmaj, hr⟩ := hcounted.majority hnd.of_append_left hidx hr
      refine ⟨replicas, hrnd, hsub, hmaj, fun o ho => ?_⟩
      obtain ⟨hmem, ho⟩ := hr o ho
      have harrived : (o, .ok out) ∈ call.arrivals := by
        rw [hf, ← ho, ← hsplit]
        exact List.mem_map.mpr ⟨o, List.mem_append_left _ hmem, rfl⟩
      rcases h.arrivals _ harrived with hsent | ⟨_, e, he⟩
      · exact hsent
      · cases he
    · cases hnone

end Call.Sound

/-! ## What a step does -/

section Steps

variable {rs : ReplicaSet Op} {s s' : State B Op}

/-- A replica's record changes only by executing an operation on it: that of a call, or a `Set`
of read repair. -/
theorem Step.cell (h : Step rs s s') (o : Op) :
    s'.cell o = s.cell o ∨ ∃ (op : KvOp B) (now : Nat),
      s'.cell o = (op.execute now (s.cell o)).1 ∧
        ((∃ i call, s.calls i = some call ∧ call.op = op) ∨ ∃ record, op = .set record) := by
  cases h with
  | start _ _ => exact .inl rfl
  | arrive _ _ _ => exact .inl rfl
  | fail _ _ _ => exact .inl rfl
  | @execute i call o' now hcall _ _ =>
    by_cases ho : o = o'
    · subst ho
      exact .inr ⟨call.op, now, State.setCell_self .., .inl ⟨i, call, hcall, rfl⟩⟩
    · exact .inl (State.setCell_of_ne _ ho _)
  | @repair i call o' record now _ _ _ =>
    by_cases ho : o = o'
    · subst ho
      exact .inr ⟨.set record, now, State.setCell_self .., .inr ⟨record, rfl⟩⟩
    · exact .inl (State.setCell_of_ne _ ho _)

/-- A response is what executing the operation returned, on a record that had not expired. -/
structure Executed (rs : ReplicaSet Op) (s s' : State B Op) (op : KvOp B) (a : Op × Response B) :
    Prop where
  mem : a.1 ∈ rs.operators
  result : ∃ now, (∀ ctx, s.cell a.1 = some ctx → ctx.expired now = false) ∧
    a.2 = (op.execute now (s.cell a.1)).2 ∧ s'.cell a.1 = (op.execute now (s.cell a.1)).1

/-- How a call got from `call` to `call'` in one step. -/
structure Advanced (rs : ReplicaSet Op) (s s' : State B Op) (call call' : Call B Op) : Prop where
  op : call'.op = call.op
  kept : call.sent ⊆ call'.sent
  sent : ∀ a ∈ call'.sent, a ∈ call.sent ∨ Executed rs s s' call.op a
  arrivals : call'.arrivals = call.arrivals ∨ ∃ a, call'.arrivals = call.arrivals ++ [a] ∧
    a.1 ∉ call.arrivals.map (·.1) ∧ (a ∈ call.sent ∨ a.1 ∈ rs.operators ∧ ∃ e, a.2 = .error e)

omit [LinearOrder B] [DecidableEq Op] in
theorem Advanced.refl (call : Call B Op) : Advanced rs s s' call call :=
  ⟨rfl, List.Subset.refl _, fun _ ha => .inl ha, .inl rfl⟩

/-- A call is either new or was there before the step. -/
theorem Step.call (h : Step rs s s') {i : Nat} {call' : Call B Op}
    (hcall' : s'.calls i = some call') :
    (s.calls i = none ∧ call'.sent = [] ∧ call'.arrivals = [] ∧
        ∀ v, call'.op.version? = some v → 0 < v) ∨
      ∃ call, s.calls i = some call ∧ Advanced rs s s' call call' := by
  have hother : s.calls i = some call' → ∃ call, s.calls i = some call ∧
      Advanced rs s s' call call' := fun hi => ⟨call', hi, .refl call'⟩
  cases h with
  | start hj hversion =>
    rcases State.calls_setCall.mp hcall' with ⟨rfl, rfl⟩ | ⟨_, hcall'⟩
    · exact .inl ⟨hj, rfl, rfl, fun v hv => (hversion v hv).1⟩
    · exact .inr (hother hcall')
  | @execute j call o now hj ho hlive =>
    rcases State.calls_setCall.mp hcall' with ⟨rfl, rfl⟩ | ⟨_, hcall'⟩
    · refine .inr ⟨call, hj, rfl, List.subset_append_left _ _, ?_, .inl rfl⟩
      intro a ha
      rcases List.mem_append.mp ha with ha | ha
      · exact .inl ha
      · obtain rfl := List.mem_singleton.mp ha
        exact .inr ⟨ho, now, hlive, rfl, State.setCell_self ..⟩
    · exact .inr (hother hcall')
  | @arrive j call o response hj hsent hnew =>
    rcases State.calls_setCall.mp hcall' with ⟨rfl, rfl⟩ | ⟨_, hcall'⟩
    · exact .inr ⟨call, hj, rfl, List.Subset.refl _, fun _ ha => .inl ha,
        .inr ⟨_, rfl, hnew, .inl hsent⟩⟩
    · exact .inr (hother hcall')
  | @fail j call o e hj ho hnew =>
    rcases State.calls_setCall.mp hcall' with ⟨rfl, rfl⟩ | ⟨_, hcall'⟩
    · exact .inr ⟨call, hj, rfl, List.Subset.refl _, fun _ ha => .inl ha,
        .inr ⟨_, rfl, hnew, .inr ⟨ho, e, rfl⟩⟩⟩
    · exact .inr (hother hcall')
  | repair _ _ _ => exact .inr (hother hcall')

/-- A call stays, with its operation. -/
theorem Step.issued (h : Step rs s s') {i : Nat} {call : Call B Op} (hcall : s.calls i = some call) :
    ∃ call', s'.calls i = some call' ∧ call'.op = call.op := by
  have hset : ∀ {j : Nat} {call₀ call₁ : Call B Op}, s.calls j = some call₀ →
      call₁.op = call₀.op → ∃ call',
        (s.setCall j call₁).calls i = some call' ∧ call'.op = call.op := by
    intro j call₀ call₁ hj hop
    by_cases hi : i = j
    · subst hi
      rw [hcall, Option.some.injEq] at hj
      exact ⟨call₁, State.setCall_self .., by rw [hop, hj]⟩
    · exact ⟨call, by rw [State.setCall_of_ne _ hi, hcall], rfl⟩
  cases h with
  | @start j op hj _ =>
    have hi : i ≠ j := by
      rintro rfl
      rw [hcall] at hj
      cases hj
    exact ⟨call, by rw [State.setCall_of_ne _ hi, hcall], rfl⟩
  | execute hj _ _ => exact hset hj rfl
  | arrive hj _ _ => exact hset hj rfl
  | fail hj _ _ => exact hset hj rfl
  | repair _ _ _ => exact ⟨call, hcall, rfl⟩

theorem Step.held_le (h : Step rs s s') (o : Op) : held (s.cell o) ≤ held (s'.cell o) := by
  rcases h.cell o with heq | ⟨op, now, heq, _⟩
  · rw [heq]
  · rw [heq]
    exact held_le_execute op

end Steps

/-! ## Invariants of a run -/

section Runs

variable {rs : ReplicaSet Op} {s s' : State B Op}

def DelIssued (s : State B Op) (v : Nat) : Prop := ∃ i call, s.calls i = some call ∧ call.op = .del v

theorem Step.delIssued (h : Step rs s s') {v : Nat} (hdel : DelIssued s v) : DelIssued s' v := by
  obtain ⟨i, call, hcall, hop⟩ := hdel
  obtain ⟨call', hcall', hop'⟩ := h.issued hcall
  exact ⟨i, call', hcall', hop'.trans hop⟩

/-- What the responses of every call say about the replicas. -/
structure Consistent (rs : ReplicaSet Op) (s : State B Op) : Prop where
  responses : ∀ {i call}, s.calls i = some call → call.Sound rs.operators
  positive : ∀ {i call v}, s.calls i = some call → call.op.version? = some v → 0 < v
  /-- A replica that acknowledged a `Set` holds a version at least as new. -/
  acked : ∀ {i call record}, s.calls i = some call → call.op = .set record →
    ∀ a ∈ call.sent, record.version ≤ held (s.cell a.1)
  /-- A record without a value is the mark of a `Del`. -/
  deleted : ∀ {o ctx}, s.cell o = some ctx → ctx.payload = .none → 0 < ctx.version →
    DelIssued s ctx.version

omit [LinearOrder B] [DecidableEq Op] in
theorem consistent_init : Consistent rs (State.init : State B Op) where
  responses h := nomatch h
  positive h := nomatch h
  acked h := nomatch h
  deleted h := nomatch h

theorem consistent_step : Invariant (Step rs) (Consistent (B := B) rs) := by
  intro s s' hs h
  constructor
  case responses =>
    intro i call' hcall'
    rcases h.call hcall' with ⟨_, hsent, harr, _⟩ | ⟨call, hcall, hadv⟩
    · exact .of_new hsent harr
    · exact (hs.responses hcall).advance hadv.kept
        (fun a ha => (hadv.sent a ha).imp_right Executed.mem) hadv.arrivals
  case positive =>
    intro i call' v hcall' hv
    rcases h.call hcall' with ⟨_, _, _, hpos⟩ | ⟨call, hcall, hadv⟩
    · exact hpos v hv
    · rw [hadv.op] at hv
      exact hs.positive hcall hv
  case acked =>
    intro i call' record hcall' hop a ha
    rcases h.call hcall' with ⟨_, hsent, _, _⟩ | ⟨call, hcall, hadv⟩
    · rw [hsent] at ha
      cases ha
    · rw [hadv.op] at hop
      rcases hadv.sent a ha with ha | ⟨_, now, _, _, hcell⟩
      · exact (hs.acked hcall hop a ha).trans (h.held_le a.1)
      · rw [hcell, hop]
        exact set_le_held_execute record
  case deleted =>
    intro o ctx hcell hpayload hpos
    rcases h.cell o with heq | ⟨op, now, heq, hissued⟩
    · rw [heq] at hcell
      exact h.delIssued (hs.deleted hcell hpayload hpos)
    · rw [heq] at hcell
      rcases execute_deleted hcell hpayload hpos with hold | hdel
      · exact h.delIssued (hs.deleted hold hpayload hpos)
      · rcases hissued with ⟨i, call, hcall, hop⟩ | ⟨record, hop⟩
        · exact h.delIssued ⟨i, call, hcall, hop.trans hdel⟩
        · rw [hdel] at hop
          cases hop

/-- The answer to a `Get` is a record of version `v` or newer, or no record, and then a `Del` of
such a version has been issued. -/
def Fresh (s : State B Op) (v : Nat) (out : Output B) : Prop :=
  ∃ found, out = .record found ∧
    match found with
    | some record => v ≤ record.version
    | none => ∃ v', v ≤ v' ∧ DelIssued s v'

omit [LinearOrder B] [DecidableEq Op] in
theorem Fresh.mono (hdel : ∀ {v}, DelIssued s v → DelIssued s' v) {v : Nat} {out : Output B}
    (h : Fresh s v out) : Fresh s' v out := by
  obtain ⟨found, rfl, hfound⟩ := h
  refine ⟨found, rfl, ?_⟩
  cases found with
  | some record => exact hfound
  | none =>
    obtain ⟨v', hle, hissued⟩ := hfound
    exact ⟨v', hle, hdel hissued⟩

omit [LinearOrder B] [DecidableEq Op] in
/-- A replica that holds version `v` or newer answers a `Get` so. -/
theorem fresh_get {o : Op} (hdeleted : ∀ {ctx}, s.cell o = some ctx → ctx.payload = .none →
      0 < ctx.version → DelIssued s ctx.version) {v now : Nat} {out : Output B}
    (hlive : ∀ ctx, s.cell o = some ctx → ctx.expired now = false) (hpos : 0 < v)
    (hv : v ≤ held (s.cell o)) (hout : (KvOp.get.execute now (s.cell o)).2 = .ok out) :
    Fresh s v out := by
  obtain ⟨ctx, hcell, hle, ⟨hpayload, hnone⟩ | ⟨value, hsome⟩⟩ := execute_get hlive hpos hv
  · rw [hnone, Except.ok.injEq] at hout
    exact ⟨none, hout.symm, ctx.version, hle, hdeleted hcell hpayload (hpos.trans_le hle)⟩
  · rw [hsome, Except.ok.injEq] at hout
    exact ⟨some _, hout.symm, hle⟩

/-- The replicas of `quorum` hold version `v` or newer, and so does what they answered to call
`g`. -/
structure Visible (v : Nat) (quorum : List Op) (g : Nat) (s : State B Op) : Prop where
  held : ∀ o ∈ quorum, v ≤ held (s.cell o)
  answered : ∀ {call}, s.calls g = some call → call.op = .get →
    ∀ a ∈ call.sent, a.1 ∈ quorum → ∀ out, a.2 = .ok out → Fresh s v out

theorem visible_step {v : Nat} (hpos : 0 < v) {quorum : List Op} {g : Nat} :
    Invariant (Step (B := B) rs) fun s => Consistent rs s ∧ Visible v quorum g s := by
  rintro s s' ⟨hs, hvis⟩ h
  refine ⟨consistent_step s s' hs h, ?_⟩
  constructor
  case held => exact fun o ho => (hvis.held o ho).trans (h.held_le o)
  case answered =>
    intro call' hcall' hget a ha hmem out hout
    rcases h.call hcall' with ⟨_, hsent, _, _⟩ | ⟨call, hcall, hadv⟩
    · rw [hsent] at ha
      cases ha
    · rw [hadv.op] at hget
      rcases hadv.sent a ha with ha | ⟨_, now, hlive, hresult, _⟩
      · exact (hvis.answered hcall hget a ha hmem out hout).mono h.delIssued
      · rw [hresult, hget] at hout
        exact (fresh_get hs.deleted hlive hpos (hvis.held a.1 hmem) hout).mono h.delIssued

/-- An `Ok` reply was sent by a majority of the replicas. -/
theorem Consistent.quorum (hs : Consistent rs s) {i : Nat} {call : Call B Op} {out : Output B}
    (hcall : s.calls i = some call) (hreply : call.reply rs = some (.ok out)) :
    Majority rs fun o => (o, .ok out) ∈ call.sent := by
  rw [Call.reply] at hreply
  split at hreply
  · cases hreply
  · next hcollect =>
    split_ifs at hreply
    exact (hs.responses hcall).quorum (by rw [rs.length_operators]; decide) hcollect
      (Option.some.inj hreply) (.inl rfl)

theorem acked_set_visible {s₁ s₂ : State B Op} (h₁ : Run (Step rs) State.init s₁)
    (h₂ : Run (Step rs) s₁ s₂) {i : Nat} {set : Call B Op} {record : Record B}
    (hset : s₁.calls i = some set) (hsetOp : set.op = .set record)
    {ack : Output B} (hacked : set.reply rs = some (.ok ack)) {g : Nat} {get : Call B Op}
    (hnew : s₁.calls g = none) (hget : s₂.calls g = some get) (hgetOp : get.op = .get)
    {out : Output B} (hanswered : get.reply rs = some (.ok out)) :
    Fresh s₂ record.version out := by
  have hs₁ := consistent_step.run h₁ consistent_init
  have hpos : 0 < record.version := hs₁.positive hset (by rw [hsetOp]; rfl)
  obtain ⟨writers, hwnd, hwsub, hwlen, hw⟩ := hs₁.quorum hset hacked
  have hvis₁ : Visible record.version writers g s₁ :=
    ⟨fun o ho => hs₁.acked hset hsetOp _ (hw o ho), fun h => by rw [hnew] at h; cases h⟩
  obtain ⟨hs₂, hvis₂⟩ := (visible_step hpos).run h₂ ⟨hs₁, hvis₁⟩
  obtain ⟨readers, hrnd, hrsub, hrlen, hr⟩ := hs₂.quorum hget hanswered
  -- the two quorums share a replica
  obtain ⟨o, how, hor⟩ := exists_mem_both hwnd hrnd hwsub hrsub (by
    rw [rs.length_operators]
    simp only [majorityQuorumThreshold, rf] at hwlen hrlen ⊢
    omega)
  exact hvis₂.answered hget hgetOp _ (hr o hor) how out rfl

/-- A replica executes a request and its response arrives at once. -/
def ask (i now : Nat) (s : State B Op) (o : Op) : State B Op :=
  match s.calls i with
  | none => s
  | some call =>
    let (cell, response) := call.op.execute now (s.cell o)
    let call := { call with sent := call.sent ++ [(o, response)] }
    ((s.setCell o cell).setCall i call).setCall i
      { call with arrivals := call.arrivals ++ [(o, response)] }

theorem run_ask {i now : Nat} {call : Call B Op} {asked : List Op} (hcall : s.calls i = some call)
    (hsub : asked ⊆ rs.operators) (hnd : (call.arrivals.map (·.1) ++ asked).Nodup)
    (hlive : ∀ o ∈ asked, ∀ ctx, s.cell o = some ctx → ctx.expired now = false) :
    Run (Step rs) s (asked.foldl (ask i now) s) := by
  induction asked generalizing s call with
  | nil => exact .refl
  | cons o asked ih =>
    obtain ⟨ho, hsub⟩ := List.cons_subset.mp hsub
    obtain ⟨-, hasked, hdisj⟩ := List.nodup_append.mp hnd
    have hnew : o ∉ call.arrivals.map (·.1) := fun h => hdisj o h o List.mem_cons_self rfl
    refine .trans (.tail (.single (.execute hcall ho (hlive o List.mem_cons_self)))
      (.arrive (State.setCall_self ..) (List.mem_append_right _ (List.mem_singleton.mpr rfl)) hnew)) ?_
    rw [List.foldl_cons]
    simp only [ask, hcall]
    refine ih (State.setCall_self ..) hsub (by simpa using hnd) fun o' ho' ctx hctx => ?_
    have hne : o' ≠ o := fun heq => (List.nodup_cons.mp hasked).1 (heq ▸ ho')
    exact hlive o' (List.mem_cons_of_mem _ ho') ctx ((State.setCell_of_ne s hne _).symm.trans hctx)

end Runs

/-- A `Set` that reached four replicas, and a `Get` answered first by the one it did not reach. -/
theorem acked_set_visible_overlap :
    let rs : ReplicaSet Nat := ⟨[0, 1, 2, 3, 4], rfl, by decide⟩
    let record : Record Nat := ⟨8, 100, 7⟩
    let written := [0, 1, 2, 3].foldl (ask 0 50) (State.init.setCall 0 ⟨.set record, [], []⟩)
    let read := [4, 3, 2, 1].foldl (ask 1 50) (written.setCall 1 ⟨.get, [], []⟩)
    Run (Step rs) State.init written ∧ Run (Step rs) written read ∧
      Fresh read record.version (.record (some record)) := by
  intro rs record written read
  have h₁ : Run (Step rs) State.init written := by
    refine .head (.start rfl ?_) (run_ask (State.setCall_self ..) (by decide) (by decide) ?_)
    · simp [KvOp.version?, State.init, record]
    · intro o _ ctx hctx
      cases hctx
  have h₂ : Run (Step rs) written read := by
    refine .head (.start rfl ?_) (run_ask (State.setCall_self ..) (by decide) (by decide) ?_)
    · simp [KvOp.version?]
    · decide +kernel
  exact ⟨h₁, h₂, acked_set_visible h₁ h₂ (i := 0) rfl rfl
    (by decide +kernel : Call.reply rs _ = some (.ok .none)) (g := 1) rfl rfl rfl
    (by decide +kernel : Call.reply rs _ = some (.ok (.record (some record))))⟩

end Replication
end Wcn
