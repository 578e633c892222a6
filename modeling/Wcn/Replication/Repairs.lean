import Wcn.Replication.ReadRepair
import Wcn.Replication.Reply
import Wcn.Storage.Engine

/-!
# Wcn.Replication.Repairs

Whom read repair writes to, over all responses of an operation. Targets are found twice: among the
responses that were there when the loop broke, and among those that came later. Both go to two slots,
which are enough because three replicas agree.

* `Answered` — each replica's response has its position in the buffer.
* `completeRepair_perm` — the targets are the replicas with another successful response.
* `repairs_exact` — the writes they get, and what these writes do to a database.
-/

namespace Wcn
namespace Replication

open StorageApi Lib

/-- An operation with the keyspace version it was sent with. -/
structure KeyedOperation extends Storage.Request where
  keyspaceVersion : Option Nat

/-- What each target is sent: a write that is addressed as the read was. -/
def repairRequests {Op : Type} [DecidableEq Op] (request : KeyedOperation) (rs : ReplicaSet Op)
    (arrivals : List (Op × Response Bytes)) : List (Op × KeyedOperation) :=
  (repairs request.operation rs arrivals).map fun repair =>
    (repair.1, { request with operation := repair.2 })

section Complete

variable {B Op : Type} [DecidableEq B] [DecidableEq Op]

/-! ## Where the responses are -/

/-- Each replica's response has its position in the buffer. -/
def Answered (quorum : Quorum Op) (rs : ReplicaSet Op) (f : Op → Response B) (seen : List Op)
    (filled : List (Response B)) : Prop :=
  quorum.replicaResponses =
    rs.operators.map fun o => if o ∈ seen then some (filled.idxOf (f o)) else none

omit [DecidableEq B] in
theorem set_idxOf_map {γ : Type} {l : List Op} (hl : l.Nodup) {o : Op} (ho : o ∈ l) (g : Op → γ)
    (c : γ) : (l.map g).set (l.idxOf o) c = l.map fun x => if x = o then c else g x := by
  induction l with
  | nil => cases ho
  | cons a l ih =>
    obtain ⟨ha, hl⟩ := List.nodup_cons.mp hl
    by_cases hao : a = o
    · subst hao
      have hrest : l.map (fun x => if x = a then c else g x) = l.map g :=
        List.map_congr_left fun x hx => if_neg fun (hxa : x = a) => ha (hxa ▸ hx)
      simp [hrest]
    · have ho : o ∈ l := (List.mem_cons.mp ho).resolve_left fun h => hao h.symm
      rw [List.idxOf_cons_ne _ hao]
      simp [hao, ih hl ho]

variable {rs : ReplicaSet Op} {f : Op → Response B} {seen : List Op} {filled : List (Response B)}

omit [DecidableEq Op] in
theorem idxOf_remember {r : Response B} (hr : r ∈ filled) (x : Response B) :
    (remember filled x).idxOf r = filled.idxOf r := by
  rw [remember]
  split
  · rfl
  · exact List.idxOf_append_of_mem hr

theorem Answered.received {quorum : Quorum Op} (h : Answered quorum rs f seen filled)
    (hset : quorum.replicaSet = rs.operators) (hfilled : ∀ r, r ∈ filled ↔ r ∈ seen.map f) (o : Op) :
    Answered (quorum.responseReceived o ((remember filled (f o)).idxOf (f o))) rs f (seen ++ [o])
      (remember filled (f o)) := by
  have hkept : ∀ x ∈ seen, (remember filled (f o)).idxOf (f x) = filled.idxOf (f x) := fun x hx =>
    idxOf_remember ((hfilled _).mpr (List.mem_map_of_mem hx)) (f o)
  rw [Answered, Quorum.responseReceived, hset]
  by_cases ho : o ∈ rs.operators
  · rw [if_pos ho]
    dsimp only
    rw [h, set_idxOf_map rs.nodup ho]
    refine List.map_congr_left fun x _ => ?_
    by_cases hxo : x = o
    · subst hxo
      rw [if_pos rfl, if_pos (List.mem_append_right _ List.mem_cons_self)]
    · by_cases hx : x ∈ seen
      · rw [if_neg hxo, if_pos hx, if_pos (List.mem_append_left _ hx), hkept x hx]
      · rw [if_neg hxo, if_neg hx, if_neg (by simp [hx, hxo])]
  · rw [if_neg ho, h]
    refine List.map_congr_left fun x hx => ?_
    have hxo : x ≠ o := fun hxo => ho (hxo ▸ hx)
    by_cases hx : x ∈ seen
    · rw [if_pos hx, if_pos (List.mem_append_left _ hx), hkept x hx]
    · rw [if_neg hx, if_neg (by simp [hx, hxo])]

/-- The loop of a read, with where the responses are. -/
theorem collect_answered (rs : ReplicaSet Op) (f : Op → Response B) {arrivals : List Op}
    (harrivals : arrivals.Perm rs.operators) :
    ∃ collector idx seen rest filled,
      (Collector.new rs none).collect (arrivals.map fun o => (o, f o)) =
        some (collector, idx, rest.map fun o => (o, f o)) ∧
      seen ++ rest = arrivals ∧ Seen collector rs none f seen filled ∧
      Answered collector.primary rs f seen filled ∧
      (collector.verdict = some idx ∨ collector.verdict = none ∧ seen = arrivals) := by
  let Holds (collector : Collector B Op) (seen : List Op) : Prop :=
    ∃ filled, Seen collector rs none f seen filled ∧ Answered collector.primary rs f seen filled
  have hstep : ∀ {collector : Collector B Op} {seen : List Op} {o : Op}, Holds collector seen →
      (seen ++ [o]).Nodup → seen.length < rf * 2 →
      ∃ collector', collector.receive o (f o) = some collector' ∧ Holds collector' (seen ++ [o]) := by
    rintro collector seen o ⟨filled, h, hanswered⟩ hseen hlt
    obtain ⟨collector', hrecv, hprimary, h'⟩ := receive_seen h hseen hlt
    refine ⟨collector', hrecv, _, h', ?_⟩
    rw [hprimary]
    exact hanswered.received h.primary.replicaSet h.mem o
  have hstart : Holds (Collector.new rs none) [] := by
    refine ⟨[], seen_new rs none f, ?_⟩
    have hlen := rs.length_operators
    simp [Answered, Collector.new, Quorum.new, hlen]
  have hnd : arrivals.Nodup := harrivals.nodup_iff.mpr rs.nodup
  have hlen : arrivals.length ≤ rf * 2 := by
    rw [harrivals.length_eq, rs.length_operators]
    decide
  obtain ⟨collector, idx, late, seen, hcollect, ⟨filled, h, hanswered⟩, ⟨rest, hsplit, rfl⟩, hend⟩ :=
    collect_keeps hstep hstart arrivals hnd hlen rfl
  exact ⟨collector, idx, seen, rest, filled, hcollect, hsplit, h, hanswered,
    hend.imp_right fun hend => ⟨hend.1, hend.2.2⟩⟩

/-! ## The targets -/

/-- Successful, but not the response of the quorum. -/
def isStale (quorum : Output B) : Response B → Bool
  | .ok output => output ≠ quorum
  | .error _ => false

omit [DecidableEq Op] in
theorem isStale_iff {quorum : Output B} {r : Response B} :
    isStale quorum r = true ↔ (∃ output, r = .ok output) ∧ r ≠ .ok quorum := by
  cases r <;> simp [isStale]

variable {collector : Collector B Op} {operation : Operation B} {output : Output B} {i : Nat}

theorem Seen.getD_responses (h : Seen collector rs none f seen filled) {j : Nat} {r : Response B}
    (hj : filled[j]? = some r) : collector.responses.getD j none = some r := by
  have hlt := (List.getElem?_eq_some_iff.mp hj).1
  rw [h.responses, buffer, List.getD_eq_getElem?_getD,
    List.getElem?_append_left (by simpa using hlt), List.getElem?_map, hj]
  rfl

theorem Seen.getElem?_idxOf (h : Seen collector rs none f seen filled) {o : Op} (ho : o ∈ seen) :
    filled[filled.idxOf (f o)]? = some (f o) :=
  List.getElem?_idxOf ((h.mem _).mpr (List.mem_map_of_mem ho))

/-- The buffer has no response twice, so positions tell responses apart. -/
theorem Seen.idxOf_eq_iff (h : Seen collector rs none f seen filled) {r : Response B}
    (hr : filled[i]? = some r) {o : Op} (ho : o ∈ seen) : filled.idxOf (f o) = i ↔ f o = r := by
  constructor
  · intro heq
    have hget := h.getElem?_idxOf ho
    rw [heq, hr] at hget
    exact (Option.some.inj hget).symm
  · intro heq
    obtain ⟨hlt, hget⟩ := List.getElem?_eq_some_iff.mp hr
    rw [heq, ← hget]
    exact h.nodup.idxOf_getElem i hlt

/-- The targets when the loop has broken. -/
theorem new_eq_some (h : Seen collector rs none f seen filled)
    (hanswered : Answered collector.primary rs f seen filled) (hop : isRepairable operation = true)
    (hidx : collector.primary.responseIdx = some i) (hr : filled[i]? = some (.ok output)) :
    ReadRepair.new operation collector =
      some ⟨output,
        (rs.operators.filter fun o => o ∈ seen ∧ isStale output (f o)).take maxTargets⟩ := by
  rw [ReadRepair.new, if_pos hop, hidx]
  dsimp only
  rw [h.getD_responses hr]
  dsimp only
  refine congrArg (fun targets => some (ReadRepair.mk output (List.take maxTargets targets))) ?_
  rw [h.primary.replicaSet, hanswered, ← List.map_prod_left_eq_zip, List.filterMap_map,
    ← List.filterMap_eq_filter]
  refine List.filterMap_congr fun o _ => ?_
  rw [Function.comp_apply, Option.guard]
  by_cases ho : o ∈ seen
  · rw [if_pos ho]
    dsimp only
    rw [h.getD_responses (h.getElem?_idxOf ho)]
    by_cases heq : f o = .ok output
    · rw [if_pos ((h.idxOf_eq_iff hr ho).mpr heq)]
      simp [heq, isStale]
    · have hne : filled.idxOf (f o) ≠ i := fun hi => heq ((h.idxOf_eq_iff hr ho).mp hi)
      cases hfo : f o with
      | error e =>
        rw [hfo] at hne
        simp [hne, isStale]
      | ok output' =>
        rw [hfo] at hne heq
        have hother : output' ≠ output := fun h => heq (congrArg Except.ok h)
        simp [hne, ho, isStale, hother]
  · simp [ho]

omit [DecidableEq Op] in
/-- Later responses add their targets, as long as there is room. -/
theorem foldl_checkResponse {repair : ReadRepair B Op} {late : List Op}
    (hfit : repair.targets.length + (late.filter fun o => isStale repair.output (f o)).length ≤
      maxTargets) :
    (late.map fun o => (o, f o)).foldl
        (fun repair arrival => repair.checkResponse arrival.1 arrival.2) repair =
      { repair with
        targets := repair.targets ++ late.filter fun o => isStale repair.output (f o) } := by
  induction late generalizing repair with
  | nil => simp
  | cons o late ih =>
    rw [List.map_cons, List.foldl_cons]
    dsimp only
    by_cases hstale : isStale repair.output (f o) = true
    · rw [List.filter_cons, if_pos hstale, List.length_cons] at hfit
      have hadd : repair.checkResponse o (f o) = { repair with targets := repair.targets ++ [o] } := by
        obtain ⟨⟨output, hout⟩, hne⟩ := isStale_iff.mp hstale
        rw [hout] at hne ⊢
        rw [ReadRepair.checkResponse, if_neg fun heq => hne (congrArg Except.ok heq),
          if_pos (by omega)]
      rw [hadd, ih (by rw [List.length_append, List.length_singleton]; dsimp only; omega),
        List.filter_cons, if_pos hstale]
      dsimp only
      rw [List.append_assoc, List.singleton_append]
    · have hskip : repair.checkResponse o (f o) = repair := by
        cases hfo : f o with
        | error e => rfl
        | ok output =>
          rw [hfo, isStale_iff] at hstale
          rw [ReadRepair.checkResponse, if_pos]
          by_contra hne
          exact hstale ⟨⟨output, rfl⟩, fun heq => hne (Except.ok.inj heq)⟩
      rw [List.filter_cons, if_neg hstale] at hfit ⊢
      rw [hskip, ih hfit]

omit [DecidableEq Op] in
/-- The other successful responses are few. -/
theorem length_stale_le
    (hquorum : majorityQuorumThreshold ≤ rs.operators.countP (f · = .ok output)) :
    (rs.operators.filter fun o => isStale output (f o)).length ≤ maxTargets := by
  have hsplit := List.length_eq_countP_add_countP (fun o => decide (f o = .ok output)) (l := rs.operators)
  rw [rs.length_operators] at hsplit
  have hle : (rs.operators.filter fun o => isStale output (f o)).length ≤
      rs.operators.countP fun o => ¬ decide (f o = .ok output) = true := by
    rw [← List.countP_eq_length_filter]
    refine List.countP_mono_left fun o _ ho => ?_
    simpa using (isStale_iff.mp ho).2
  unfold majorityQuorumThreshold rf at *
  unfold maxTargets majorityQuorumThreshold rf
  omega

/-- When the loop of a read has ended, it has found the response with a majority. -/
theorem exists_responseIdx (h : Seen collector rs none f seen filled) (hseen : seen.Nodup)
    (hend : (∃ idx, collector.verdict = some idx) ∨ rs.operators ⊆ seen) {r : Response B}
    (hquorum : majorityQuorumThreshold ≤ rs.operators.countP (f · = r)) :
    ∃ i, collector.primary.responseIdx = some i ∧ filled[i]? = some r := by
  rcases hend with ⟨idx, hverdict⟩ | hall
  · cases hidx : collector.primary.responseIdx with
    | none =>
      rw [Collector.verdict, hidx] at hverdict
      cases hverdict
    | some i =>
      obtain ⟨r', hr', hmaj⟩ := (h.primary.idx i).mp hidx
      rw [majority_eq rs f hseen hmaj hquorum]
      exact ⟨i, rfl, hr'⟩
  · rw [← tally_eq rs f hseen hall] at hquorum
    obtain ⟨i, hi⟩ := List.mem_iff_getElem?.mp (mem_of_majority h.mem hquorum)
    exact ⟨i, (h.primary.idx i).mpr ⟨r, hi, hquorum⟩, hi⟩

/-- Who is found before and after the loop broke, together. -/
theorem filter_seen_perm {l seen rest : List Op} (hl : l.Nodup) (harrivals : (seen ++ rest).Perm l)
    (p : Op → Bool) : ((l.filter fun o => o ∈ seen ∧ p o) ++ rest.filter p).Perm (l.filter p) := by
  have hnd : (seen ++ rest).Nodup := harrivals.nodup_iff.mpr hl
  refine (List.perm_ext_iff_of_nodup ?_ (hl.filter _)).mpr fun o => ?_
  · refine List.nodup_append.mpr ⟨hl.filter _, hnd.of_append_right.filter _, ?_⟩
    rintro o ho _ ho' rfl
    have hseen : o ∈ seen := (of_decide_eq_true (List.mem_filter.mp ho).2).1
    exact (List.nodup_append.mp hnd).2.2 o hseen o (List.mem_of_mem_filter ho') rfl
  · rw [List.mem_append, List.mem_filter, List.mem_filter, List.mem_filter, decide_eq_true_eq,
      ← harrivals.mem_iff, List.mem_append]
    constructor
    · rintro (⟨hmem, _, hp⟩ | ⟨hrest, hp⟩)
      · exact ⟨hmem, hp⟩
      · exact ⟨.inr hrest, hp⟩
    · rintro ⟨hseen | hrest, hp⟩
      · exact .inl ⟨.inl hseen, hseen, hp⟩
      · exact .inr ⟨hrest, hp⟩

/-- With a majority for a successful response, every replica with another one becomes a target. -/
theorem completeRepair_perm (hop : isRepairable operation = true) {arrivals : List Op}
    (harrivals : arrivals.Perm rs.operators)
    (hquorum : majorityQuorumThreshold ≤ rs.operators.countP (f · = .ok output)) :
    ∃ targets, completeRepair operation rs (arrivals.map fun o => (o, f o)) = some ⟨output, targets⟩ ∧
      targets.Perm (rs.operators.filter fun o => isStale output (f o)) := by
  obtain ⟨collector, idx, seen, rest, filled, hcollect, hsplit, h, hanswered, hend⟩ :=
    collect_answered rs f harrivals
  have hnd : (seen ++ rest).Nodup := hsplit ▸ harrivals.nodup_iff.mpr rs.nodup
  have hall : (∃ idx, collector.verdict = some idx) ∨ rs.operators ⊆ seen := by
    rcases hend with hverdict | ⟨-, hseen⟩
    · exact .inl ⟨idx, hverdict⟩
    · exact .inr fun o ho => hseen ▸ harrivals.mem_iff.mpr ho
  obtain ⟨i, hidx, hr⟩ := exists_responseIdx h hnd.of_append_left hall hquorum
  have hperm := filter_seen_perm rs.nodup (hsplit ▸ harrivals) fun o => isStale output (f o)
  have hlen := hperm.length_eq.trans_le (length_stale_le hquorum)
  rw [List.length_append] at hlen
  refine ⟨_, ?_, hperm⟩
  rw [completeRepair, hcollect]
  dsimp only
  rw [new_eq_some h hanswered hop hidx hr, Option.map_some,
    List.take_of_length_le (Nat.le_of_add_right_le hlen), foldl_checkResponse hlen]

/-- Nothing is repaired without a majority for a successful response. -/
theorem completeRepair_eq_none {arrivals : List Op} (harrivals : arrivals.Perm rs.operators)
    (hno : ∀ output, ¬ majorityQuorumThreshold ≤ rs.operators.countP (f · = .ok output)) :
    completeRepair operation rs (arrivals.map fun o => (o, f o)) = none := by
  obtain ⟨collector, idx, seen, rest, filled, hcollect, hsplit, h, -, -⟩ :=
    collect_answered rs f harrivals
  have hnd : (seen ++ rest).Nodup := hsplit ▸ harrivals.nodup_iff.mpr rs.nodup
  have hnew : ReadRepair.new operation collector = none := by
    rw [ReadRepair.new]
    split
    · cases hidx : collector.primary.responseIdx with
      | none => rfl
      | some i =>
        obtain ⟨r, hr, hmaj⟩ := (h.primary.idx i).mp hidx
        dsimp only
        rw [h.getD_responses hr]
        cases r with
        | error e => rfl
        | ok output => exact absurd (hmaj.trans (tally_le rs f hnd.of_append_left _)) (hno output)
    · rfl
  rw [completeRepair, hcollect]
  dsimp only
  rw [hnew, Option.map_none]

end Complete

/-! ## What the writes do -/

/-- A write of a record, to a key or to a field of a map. -/
def Writes (record : Record Bytes) (operation : Operation Bytes) : Prop :=
  operation = .set record ∨ ∃ field, operation = .hset ⟨field, record⟩

/-- A database that has a newer record under some key, or one of the same version, keeps it. -/
theorem execute_keeps_newer {record : Record Bytes} {request : Storage.Request}
    (h : Writes record request.operation) (hash : Bytes → UInt64) (now : Nat) {db : Storage.Backend}
    {k : Storage.ColumnFamilyName × Bytes} {ctx : Storage.DataContext Bytes}
    (hctx : db.toDatabase.record k = some ctx) :
    ∃ ctx', (Storage.execute hash now db request).1.toDatabase.record k = some ctx' ∧
      ctx.version ≤ ctx'.version ∧ (record.version ≤ ctx.version → ctx' = ctx) := by
  obtain ⟨name, bytes, hdb⟩ : ∃ name bytes, (Storage.execute hash now db request).1 =
      db.merge name bytes (.set record.value record.expiration record.version) := by
    obtain ⟨ns, key, operation⟩ := request
    rcases h with rfl | ⟨field, rfl⟩
    · exact ⟨_, _, rfl⟩
    · exact ⟨_, _, rfl⟩
  rw [hdb, Storage.Backend.toDatabase_merge]
  by_cases hk : (name, bytes) = k
  · subst hk
    rw [Storage.Database.record_merge_self, hctx]
    refine ⟨_, rfl, ?_⟩
    show ctx.version ≤ (ctx.merge _).version ∧ (_ → ctx.merge _ = ctx)
    rcases Nat.lt_or_ge ctx.version record.version with hlt | hle
    · rw [Storage.DataContext.merge_fresh hlt, Storage.DataContext.version_apply]
      exact ⟨hlt.le, fun hle => absurd hlt (Nat.not_lt.mpr hle)⟩
    · rw [Storage.DataContext.merge_stale hle]
      exact ⟨le_rfl, fun _ => rfl⟩
  · rw [Storage.Database.record_merge_of_ne hk]
    exact ⟨ctx, hctx, le_rfl, fun _ => rfl⟩

theorem repairOperation_eq_some {operation : Operation Bytes} (hop : isRepairable operation = true)
    (record : Record Bytes) :
    ∃ write, repairOperation operation (.record (some record)) = some write ∧
      (operation = .get ∧ write = .set record ∨
        ∃ field, operation = .hget field ∧ write = .hset ⟨field, record⟩) := by
  cases operation with
  | get => exact ⟨_, rfl, .inl ⟨rfl, rfl⟩⟩
  | hget field => exact ⟨_, rfl, .inr ⟨field, rfl, rfl⟩⟩
  | _ => cases hop

/-- Read repair of a `Get` or `HGet`, whatever the five replicas respond and in whatever order. If a
majority returned the same record, the replicas that get a write are those with another successful
response, at most two and each once. The write is addressed as the read was and has the majority's
record; it does not lower versions, nor replace records of its own version or a newer one. Without such
a record nothing is written. -/
theorem repairs_exact {Op : Type} [DecidableEq Op] {request : KeyedOperation}
    (hop : isRepairable request.operation = true) (rs : ReplicaSet Op) (f : Op → Response Bytes)
    {arrivals : List Op} (harrivals : arrivals.Perm rs.operators) :
    (∀ record,
      majorityQuorumThreshold ≤ rs.operators.countP (f · = .ok (.record (some record))) →
      ∃ (targets : List Op) (write : KeyedOperation),
        repairRequests request rs (arrivals.map fun o => (o, f o)) = targets.map (·, write) ∧
        targets.Nodup ∧ targets.length ≤ 2 ∧
        (∀ o, o ∈ targets ↔ o ∈ rs.operators ∧ (∃ output, f o = .ok output) ∧
          f o ≠ .ok (.record (some record))) ∧
        write.ns = request.ns ∧ write.key = request.key ∧
        write.keyspaceVersion = request.keyspaceVersion ∧
        (request.operation = .get ∧ write.operation = .set record ∨
          ∃ field, request.operation = .hget field ∧ write.operation = .hset ⟨field, record⟩) ∧
        ∀ hash now (db : Storage.Backend) k ctx, db.toDatabase.record k = some ctx →
          ∃ ctx', (Storage.execute hash now db write.toRequest).1.toDatabase.record k = some ctx' ∧
            ctx.version ≤ ctx'.version ∧ (record.version ≤ ctx.version → ctx' = ctx)) ∧
    ((∀ record,
        ¬ majorityQuorumThreshold ≤ rs.operators.countP (f · = .ok (.record (some record)))) →
      repairRequests request rs (arrivals.map fun o => (o, f o)) = []) := by
  constructor
  · intro record hquorum
    obtain ⟨targets, hcomplete, hperm⟩ := completeRepair_perm hop harrivals hquorum
    obtain ⟨write, hwrite, hoperation⟩ := repairOperation_eq_some hop record
    refine ⟨targets, { request with operation := write }, ?_, ?_, ?_, fun o => ?_, rfl, rfl, rfl,
      hoperation, ?_⟩
    · rw [repairRequests, repairs, hcomplete]
      dsimp only
      rw [hwrite, List.map_map]
      rfl
    · exact hperm.nodup_iff.mpr (rs.nodup.filter _)
    · exact hperm.length_eq.trans_le (length_stale_le hquorum)
    · rw [hperm.mem_iff, List.mem_filter, isStale_iff]
    · intro hash now db k ctx hctx
      have hwrites : Writes record write := by
        rcases hoperation with ⟨-, hset⟩ | ⟨field, -, hset⟩
        · exact .inl hset
        · exact .inr ⟨field, hset⟩
      exact execute_keeps_newer hwrites hash now hctx
  · intro hno
    rw [repairRequests, List.map_eq_nil_iff, repairs]
    by_cases hquorum : ∃ output, majorityQuorumThreshold ≤ rs.operators.countP (f · = .ok output)
    · -- there is a majority, but not for a record
      obtain ⟨output, hquorum⟩ := hquorum
      obtain ⟨targets, hcomplete, -⟩ := completeRepair_perm hop harrivals hquorum
      rw [hcomplete]
      dsimp only
      have hnone : repairOperation request.operation output = none := by
        rcases output with (_ | record) | _ | _ | _ | _
        case record.some => exact absurd hquorum (hno record)
        all_goals cases request.operation <;> rfl
      rw [hnone]
    · rw [completeRepair_eq_none harrivals (not_exists.mp hquorum)]

/-- A majority for one record, a replica with an older one, and a failure. -/
theorem repairs_exact_older :
    let record : Record Bytes := ⟨[7], 50, 5⟩
    let request : KeyedOperation := ⟨⟨⟨Vector.replicate 21 1⟩, [9], .hget [1]⟩, some 3⟩
    let rs : ReplicaSet Nat := ⟨[0, 1, 2, 3, 4], rfl, by decide⟩
    let f : Nat → Response Bytes := fun o =>
      if o < 3 then .ok (.record (some record))
      else if o = 3 then .ok (.record (some ⟨[6], 50, 4⟩)) else .error .internal
    ∃ (targets : List Nat) (write : KeyedOperation),
      repairRequests request rs ([3, 4, 0, 1, 2].map fun o => (o, f o)) = targets.map (·, write) ∧
        3 ∈ targets ∧ 4 ∉ targets := by
  intro record request rs f
  have hop : isRepairable request.operation = true := rfl
  have harrivals : [3, 4, 0, 1, 2].Perm rs.operators := by decide
  obtain ⟨targets, write, hrepairs, -, -, hmem, -⟩ :=
    (repairs_exact hop rs f harrivals).1 record (by decide)
  refine ⟨targets, write, hrepairs, (hmem 3).mpr ⟨by decide, ⟨_, rfl⟩, by decide⟩, fun h => ?_⟩
  obtain ⟨-, ⟨output, houtput⟩, -⟩ := (hmem 4).mp h
  cases houtput

end Replication
end Wcn
