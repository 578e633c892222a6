import Wcn.Replication.Reconcile

/-!
# Wcn.Replication.Reply

The coordinator's reply does not depend on the order in which the operators answer.

`IsQuorum` is what a quorum response is, read off the operators' responses; `executeCallback_reply`
says that the loop finds exactly these, that without one the reply is the reconciled response or
an internal error, and that every operator is asked once and no response overflows the buffer.
-/

namespace Wcn
namespace Replication

open StorageApi Lib

variable {B Op : Type} [DecidableEq Op]

/-! ## The operators asked -/

section Requests

variable (operation : Operation B) (primary : ReplicaSet Op) (secondary : Option (ReplicaSet Op))

theorem mem_requests (o : Op) :
    o ∈ requests operation primary secondary ↔
      o ∈ primary.operators ∨
        ∃ rs, secondaryInUse operation secondary = some rs ∧ o ∈ rs.operators := by
  unfold requests
  cases secondaryInUse operation secondary with
  | none => simp
  | some rs =>
    simp only [List.mem_append, List.mem_filter, decide_eq_true_eq, Option.some.injEq]
    constructor
    · rintro (h | ⟨h, -⟩)
      · exact .inl h
      · exact .inr ⟨rs, rfl, h⟩
    · rintro (h | ⟨rs', rfl, h⟩)
      · exact .inl h
      · by_cases ho : o ∈ primary.operators
        · exact .inl ho
        · exact .inr ⟨h, ho⟩

theorem nodup_requests : (requests operation primary secondary).Nodup := by
  unfold requests
  cases secondaryInUse operation secondary with
  | none => simpa using primary.nodup
  | some rs =>
    refine List.nodup_append.mpr ⟨primary.nodup, rs.nodup.filter _, ?_⟩
    intro o ho o' ho' heq
    have hnot := (List.mem_filter.mp ho').2
    simp only [decide_eq_true_eq] at hnot
    exact hnot (heq ▸ ho)

theorem length_requests_le : (requests operation primary secondary).length ≤ rf * 2 := by
  unfold requests
  cases secondaryInUse operation secondary with
  | none => simp [primary.length_operators, rf]
  | some rs =>
    have hle := List.length_filter_le (fun o => decide (o ∉ primary.operators)) rs.operators
    rw [rs.length_operators] at hle
    rw [List.length_append, primary.length_operators]
    simp only [rf] at hle ⊢
    omega

end Requests

/-! ## Majorities -/

section Counts

variable [DecidableEq B] (rs : ReplicaSet Op) (f : Op → Response B) {seen : List Op}

theorem tally_le (hseen : seen.Nodup) (r : Response B) :
    tally rs.operators f seen r ≤ rs.operators.countP (f · = r) := by
  unfold tally
  rw [List.countP_eq_length_filter, List.countP_eq_length_filter]
  refine (List.subperm_of_subset (hseen.filter _) fun o ho => ?_).length_le
  have h := (List.mem_filter.mp ho).2
  simp only [decide_eq_true_eq] at h
  exact List.mem_filter.mpr ⟨h.1, by simpa using h.2⟩

theorem tally_eq (hseen : seen.Nodup) (hall : rs.operators ⊆ seen) (r : Response B) :
    tally rs.operators f seen r = rs.operators.countP (f · = r) := by
  refine Nat.le_antisymm (tally_le rs f hseen r) ?_
  unfold tally
  rw [List.countP_eq_length_filter, List.countP_eq_length_filter]
  refine (List.subperm_of_subset (rs.nodup.filter _) fun o ho => ?_).length_le
  obtain ⟨ho, hr⟩ := List.mem_filter.mp ho
  exact List.mem_filter.mpr ⟨hall ho, by simpa [ho] using hr⟩

/-- The response a replica set found is the only one with a majority in it. -/
theorem majority_eq {r r' : Response B} (hseen : seen.Nodup)
    (hr : majorityQuorumThreshold ≤ tally rs.operators f seen r)
    (hr' : majorityQuorumThreshold ≤ rs.operators.countP (f · = r')) : r' = r := by
  have hall := tally_eq rs f rs.nodup (fun _ h => h)
  refine tally_unique rs f rs.nodup ?_ ?_
  · rw [hall]
    exact hr'
  · rw [hall]
    exact hr.trans (tally_le rs f hseen r)

end Counts

/-! ## Quorum responses -/

variable [LinearOrder B]

/-- A majority of every replica set in use returned `r`. -/
def IsQuorum (operation : Operation B) (primary : ReplicaSet Op)
    (secondary : Option (ReplicaSet Op)) (f : Op → Response B) (r : Response B) : Prop :=
  majorityQuorumThreshold ≤ primary.operators.countP (f · = r) ∧
    ∀ rs, secondaryInUse operation secondary = some rs →
      majorityQuorumThreshold ≤ rs.operators.countP (f · = r)

/-! ## The verdict of the loop -/

section Verdict

variable {operation : Operation B} {primary : ReplicaSet Op} {secondary : Option (ReplicaSet Op)}
  {f : Op → Response B} {collector : Collector B Op} {seen : List Op}
  {filled : List (Response B)}

/-- A verdict for a position is a verdict for a quorum response. -/
theorem verdict_quorum
    (h : Seen collector primary (secondaryInUse operation secondary) f seen filled)
    (hseen : seen.Nodup) {i : Nat} (hv : collector.verdict = some (some i)) :
    ∃ r, filled[i]? = some r ∧ IsQuorum operation primary secondary f r := by
  obtain ⟨hp, hquorums⟩ := Collector.verdict_eq_some_some.mp hv
  obtain ⟨r, hr, hmaj⟩ := (h.primary.idx i).mp hp
  refine ⟨r, hr, hmaj.trans (tally_le primary f hseen r), fun rs hrs => ?_⟩
  obtain ⟨quorum, hquorum, hcounted⟩ := h.exists_counted hrs
  obtain ⟨r', hr', hmaj'⟩ := (hcounted.idx i).mp (hquorums quorum hquorum)
  cases hr.symm.trans hr'
  exact hmaj'.trans (tally_le rs f hseen r)

/-- Two replica sets with quorums for different responses leave no quorum response, and a second
set is only in use for a write. -/
theorem verdict_conflict
    (h : Seen collector primary (secondaryInUse operation secondary) f seen filled)
    (hseen : seen.Nodup) (hv : collector.verdict = some none) :
    (∀ r, ¬ IsQuorum operation primary secondary f r) ∧ operation.isWrite = true := by
  obtain ⟨quorum, a, b, hp, hquorum, hb, hab⟩ := Collector.verdict_eq_some_none.mp hv
  obtain ⟨rs, hrs, hcounted⟩ := h.exists_secondary hquorum
  obtain ⟨ra, hra, hmaja⟩ := (h.primary.idx a).mp hp
  obtain ⟨rb, hrb, hmajb⟩ := (hcounted.idx b).mp hb
  constructor
  · intro r hq
    have hea := majority_eq primary f hseen hmaja hq.1
    have heb := majority_eq rs f hseen hmajb (hq.2 rs hrs)
    rw [← hea] at hra
    rw [← heb] at hrb
    obtain ⟨hla, hga⟩ := List.getElem?_eq_some_iff.mp hra
    obtain ⟨hlb, hgb⟩ := List.getElem?_eq_some_iff.mp hrb
    exact hab (h.nodup.getElem_inj_iff.mp (hga.trans hgb.symm))
  · unfold secondaryInUse at hrs
    split at hrs
    · assumption
    · cases hrs

/-- Once everybody has answered, no verdict means no quorum response. -/
theorem no_verdict
    (h : Seen collector primary (secondaryInUse operation secondary) f seen filled)
    (hseen : seen.Nodup) (hall : ∀ o ∈ requests operation primary secondary, o ∈ seen)
    (hv : collector.verdict = none) : ∀ r, ¬ IsQuorum operation primary secondary f r := by
  rintro r ⟨hprimary, hsecondary⟩
  have hsub : primary.operators ⊆ seen := fun o ho =>
    hall o ((mem_requests operation primary secondary o).mpr (.inl ho))
  rw [← tally_eq primary f hseen hsub] at hprimary
  -- somebody returned `r`, so it has a position
  have hfound : ∃ i : Nat, filled[i]? = some r := by
    refine List.mem_iff_getElem?.mp ((h.mem r).mpr ?_)
    obtain ⟨o, ho, hor⟩ := List.countP_pos_iff.mp (Nat.lt_of_lt_of_le (by decide) hprimary)
    simp only [decide_eq_true_eq] at hor
    exact List.mem_map.mpr ⟨o, ho, hor.2⟩
  obtain ⟨i, hi⟩ := hfound
  have hquorum : collector.verdict = some (some i) := by
    refine Collector.verdict_eq_some_some.mpr ⟨(h.primary.idx i).mpr ⟨r, hi, hprimary⟩, ?_⟩
    intro quorum hc
    obtain ⟨rs, hrs, hcounted⟩ := h.exists_secondary hc
    have hsub' : rs.operators ⊆ seen := fun o ho =>
      hall o ((mem_requests operation primary secondary o).mpr (.inr ⟨rs, hrs, ho⟩))
    have hmaj := hsecondary rs hrs
    rw [← tally_eq rs f hseen hsub'] at hmaj
    exact (hcounted.idx i).mpr ⟨r, hi, hmaj⟩
  rw [hv] at hquorum
  cases hquorum

end Verdict

/-! ## The reply -/

/-- The reply without a quorum response. -/
def fallback (operation : Operation B) (responses : List (Response B)) : Response B :=
  match if operation.isWrite then none else reconciled operation responses with
  | some output => .ok output
  | none => .error .internal

section Reply

variable {operation : Operation B} {primary : ReplicaSet Op} {secondary : Option (ReplicaSet Op)}
  {f : Op → Response B} {collector : Collector B Op} {seen : List Op}
  {filled : List (Response B)} {intoIter : List (MapEntry B × Nat) → List (MapEntry B × Nat)}

theorem reply_quorum (h : Seen collector primary secondary f seen filled) {i : Nat}
    {r : Response B} (hr : filled[i]? = some r) :
    reply intoIter operation collector (some i) = r := by
  have hlt := (List.getElem?_eq_some_iff.mp hr).1
  simp only [reply, h.responses, buffer, List.getD_eq_getElem?_getD]
  rw [List.getElem?_append_left (by simpa using hlt), List.getElem?_map, hr]
  rfl

/-- Of a read without a quorum, everybody's response is counted once. -/
theorem reply_fallback
    (h : Seen collector primary (secondaryInUse operation secondary) f seen filled)
    (hseen : seen.Nodup)
    (hread : operation.isWrite = false → seen.Perm primary.operators)
    (hiter : ∀ l, (intoIter l).Perm l)
    (hd : DistinctFields ((primary.operators.map f).filterMap page?)) :
    reply intoIter operation collector none = fallback operation (primary.operators.map f) := by
  unfold reply fallback
  cases hw : operation.isWrite with
  | true => rfl
  | false =>
    have hperm := hread hw
    have hmem : ∀ r, r ∈ filled ↔ r ∈ primary.operators.map f := fun r =>
      (h.mem r).trans (hperm.map f).mem_iff
    have hvotes : (primary.operators.map f).length ≤ rf := by
      rw [List.length_map, primary.length_operators]
    have hlen : filled.length ≤ rf := by
      have hle := h.length_le
      rw [hperm.length_eq, primary.length_operators] at hle
      exact hle
    have hweights : collector.primary.replicasPerResponse =
        slotWeights filled ((primary.operators.map f).count ·) := by
      rw [h.primary.weights]
      refine slotWeights_congr fun r _ => ?_
      rw [tally_eq primary f hseen (fun o ho => hperm.mem_iff.mpr ho), List.count_eq_countP,
        List.countP_map]
      refine List.countP_congr fun o _ => ?_
      simp
    rw [h.responses, hweights]
    simp only [Bool.false_eq_true, if_false]
    rw [reconcile_eq operation h.nodup hmem hlen hvotes hiter hd]
    cases reconciled operation (primary.operators.map f) <;> rfl

end Reply

/-- The operators asked answer in some order: the coordinator does not panic, and replies with the
quorum response or with what `fallback` makes of all responses. -/
theorem exists_reply (operation : Operation B) (primary : ReplicaSet Op)
    (secondary : Option (ReplicaSet Op)) (f : Op → Response B)
    (hd : DistinctFields ((primary.operators.map f).filterMap page?))
    (intoIter : List (MapEntry B × Nat) → List (MapEntry B × Nat))
    (hiter : ∀ l, (intoIter l).Perm l) (arrivals : List Op)
    (harrivals : arrivals.Perm (requests operation primary secondary)) :
    ∃ r, executeCallback intoIter true operation primary secondary
        (arrivals.map fun o => (o, f o)) = some r ∧
      (∀ r', IsQuorum operation primary secondary f r' → r = r') ∧
      ((∀ r', ¬ IsQuorum operation primary secondary f r') →
        r = fallback operation (primary.operators.map f)) := by
  have hnd : arrivals.Nodup :=
    harrivals.nodup_iff.mpr (nodup_requests operation primary secondary)
  have hlen : arrivals.length ≤ rf * 2 :=
    harrivals.length_eq ▸ length_requests_le operation primary secondary
  have hstart : (Collector.new (B := B) primary (secondaryInUse operation secondary)).verdict =
      none := rfl
  obtain ⟨collector, idx, late, seen, filled, hcollect, hseen, ⟨rest, hsplit, -⟩, hend⟩ :=
    collect_seen (seen_new primary (secondaryInUse operation secondary) f) arrivals
      (by simpa using hnd) (by simpa using hlen) hstart
  rw [List.nil_append] at hsplit
  have hsnd : seen.Nodup := by
    rw [← hsplit] at hnd
    exact hnd.of_append_left
  refine ⟨reply intoIter operation collector idx, ?_, ?_⟩
  · simp only [executeCallback, if_true, hcollect]
  rcases hend with hv | ⟨hv, rfl, rfl⟩
  · cases idx with
    | some i =>
      -- the loop broke with a quorum response
      obtain ⟨r, hr, hq⟩ := verdict_quorum hseen hsnd hv
      rw [reply_quorum hseen hr]
      refine ⟨fun r' hq' => ?_, fun hno => absurd hq (hno r)⟩
      refine majority_eq primary f primary.nodup ?_ hq.1
      rw [tally_eq primary f primary.nodup fun _ h => h]
      exact hq'.1
    | none =>
      -- the two replica sets disagree
      obtain ⟨hno, hw⟩ := verdict_conflict hseen hsnd hv
      refine ⟨fun r' hq => absurd hq (hno r'), fun _ => ?_⟩
      exact reply_fallback hseen hsnd (fun hread => by rw [hw] at hread; cases hread) hiter hd
  · -- everybody answered
    have hno := no_verdict hseen hsnd
      (fun o ho => by simpa using harrivals.mem_iff.mpr ho) hv
    refine ⟨fun r' hq => absurd hq (hno r'), fun _ => ?_⟩
    refine reply_fallback hseen hsnd (fun hread => ?_) hiter hd
    simpa [requests, secondaryInUse, hread] using harrivals

/-- Every operator of the replica sets in use is asked exactly once. Whatever the order in which
they answer, the coordinator does not panic; it replies with the quorum response if there is one,
and otherwise with the reconciled response or an internal error. -/
theorem executeCallback_reply (operation : Operation B) (primary : ReplicaSet Op)
    (secondary : Option (ReplicaSet Op)) (f : Op → Response B)
    (hd : DistinctFields ((primary.operators.map f).filterMap page?))
    (intoIter : List (MapEntry B × Nat) → List (MapEntry B × Nat))
    (hiter : ∀ l, (intoIter l).Perm l) (arrivals : List Op)
    (harrivals : arrivals.Perm (requests operation primary secondary)) :
    ((requests operation primary secondary).Nodup ∧
      ∀ o, o ∈ requests operation primary secondary ↔ o ∈ primary.operators ∨
        ∃ rs, secondaryInUse operation secondary = some rs ∧ o ∈ rs.operators) ∧
    ∃ r, executeCallback intoIter true operation primary secondary
        (arrivals.map fun o => (o, f o)) = some r ∧
      (∀ r', IsQuorum operation primary secondary f r' → r = r') ∧
      ((∀ r', ¬ IsQuorum operation primary secondary f r') →
        r = fallback operation (primary.operators.map f)) :=
  ⟨⟨nodup_requests operation primary secondary, mem_requests operation primary secondary⟩,
    exists_reply operation primary secondary f hd intoIter hiter arrivals harrivals⟩

/-- A deletion during a migration, with two operators in both replica sets. -/
theorem executeCallback_reply_del :
    let operation : Operation Nat := .del 7
    let primary : ReplicaSet Nat := ⟨[0, 1, 2, 3, 4], rfl, by decide⟩
    let secondary : ReplicaSet Nat := ⟨[3, 4, 5, 6, 7], rfl, by decide⟩
    let f : Nat → Response Nat := fun o => if o = 0 then .error .internal else .ok .none
    ((requests operation primary (some secondary)).Nodup ∧
      ∀ o, o ∈ requests operation primary (some secondary) ↔ o ∈ primary.operators ∨
        ∃ rs, secondaryInUse operation (some secondary) = some rs ∧ o ∈ rs.operators) ∧
    ∃ r, executeCallback id true operation primary (some secondary)
        ([7, 0, 6, 1, 5, 2, 4, 3].map fun o => (o, f o)) = some r ∧
      (∀ r', IsQuorum operation primary (some secondary) f r' → r = r') ∧
      ((∀ r', ¬ IsQuorum operation primary (some secondary) f r') →
        r = fallback operation (primary.operators.map f)) :=
  executeCallback_reply (.del 7) ⟨[0, 1, 2, 3, 4], rfl, by decide⟩
    (some ⟨[3, 4, 5, 6, 7], rfl, by decide⟩)
    (fun o => if o = 0 then .error .internal else .ok .none) (fun page h => by simp [page?] at h) id
    (fun l => .refl l) [7, 0, 6, 1, 5, 2, 4, 3] (by decide)

/-- Pages that repeat a field: two arrival orders give two replies, already with a hash map that
iterates in the order of insertion. -/
theorem reply_depends_on_order :
    let operation : Operation Nat := .hscan 10 none
    let primary : ReplicaSet Nat := ⟨[0, 1, 2, 3, 4], rfl, by decide⟩
    let a : MapEntry Nat := ⟨0, ⟨1, 50, 5⟩⟩
    let b : MapEntry Nat := ⟨0, ⟨2, 50, 6⟩⟩
    let f : Nat → Response Nat := fun
      | 0 => .ok (.mapPage ⟨[a, b], true⟩)
      | 1 => .ok (.mapPage ⟨[b, a], true⟩)
      | 2 => .ok (.mapPage ⟨[a, b], false⟩)
      | 3 => .ok (.mapPage ⟨[b, a], false⟩)
      | _ => .error .internal
    [0, 1, 2, 3, 4].Perm (requests operation primary none) ∧
      [1, 0, 2, 3, 4].Perm (requests operation primary none) ∧
      executeCallback id true operation primary none ([0, 1, 2, 3, 4].map fun o => (o, f o)) =
        some (.ok (.mapPage ⟨[a, b], false⟩)) ∧
      executeCallback id true operation primary none ([1, 0, 2, 3, 4].map fun o => (o, f o)) =
        some (.ok (.mapPage ⟨[b, a], false⟩)) := by
  refine ⟨by decide, by decide, ?_, ?_⟩
  · decide +kernel
  · decide +kernel

/-! ## Reconciled replies -/

theorem executeCallback_reconciled {operation : Operation B} {primary : ReplicaSet Op}
    (secondary : Option (ReplicaSet Op)) {f : Op → Response B}
    (hd : DistinctFields ((primary.operators.map f).filterMap page?))
    (hno : ∀ r, primary.operators.countP (f · = r) < majorityQuorumThreshold)
    {intoIter : List (MapEntry B × Nat) → List (MapEntry B × Nat)}
    (hiter : ∀ l, (intoIter l).Perm l) {arrivals : List Op}
    (harrivals : arrivals.Perm primary.operators) (hread : operation.isWrite = false) :
    executeCallback intoIter true operation primary secondary (arrivals.map fun o => (o, f o)) =
      some ((reconciled operation (primary.operators.map f)).elim (.error .internal) .ok) := by
  have hrequests : requests operation primary secondary = primary.operators := by
    simp [requests, secondaryInUse, hread]
  obtain ⟨r, hr, -, hfallback⟩ := exists_reply operation primary secondary f hd intoIter hiter
    arrivals (by rw [hrequests]; exact harrivals)
  rw [hr, hfallback fun r' hquorum => absurd hquorum.1 (Nat.not_le.mpr (hno r')), fallback, hread]
  cases reconciled operation (primary.operators.map f) <;> rfl

omit [DecidableEq Op] [LinearOrder B] in
/-- Votes among the responses are votes among the replicas. -/
theorem countP_responses {γ : Type} (operators : List Op) (f : Op → Response B)
    (g : Response B → Option γ) (p : γ → Bool) :
    ((operators.map f).filterMap g).countP p = operators.countP fun o => (g (f o)).any p := by
  rw [List.countP_filterMap, List.countP_map]
  refine List.countP_congr fun o _ => ?_
  rw [Function.comp_apply]
  cases g (f o) <;> simp

omit [DecidableEq Op] [LinearOrder B] in
theorem length_responses {γ : Type} (operators : List Op) (f : Op → Response B)
    (g : Response B → Option γ) :
    ((operators.map f).filterMap g).length = operators.countP fun o => (g (f o)).isSome := by
  rw [List.length_filterMap_eq_countP, List.countP_map]
  rfl

/-- Replies to reads of maps when no response has a majority. A page is returned if three replicas
returned one; it holds the entries that are on the pages of three replicas, by field, and has a next page
if three of them have one. A cardinality is returned if three replicas returned one; it is the least
of them that three replicas do not exceed. -/
theorem reconciled_votes {primary : ReplicaSet Op} (secondary : Option (ReplicaSet Op))
    {f : Op → Response B} (hd : DistinctFields ((primary.operators.map f).filterMap page?))
    (hno : ∀ r, primary.operators.countP (f · = r) < majorityQuorumThreshold)
    {intoIter : List (MapEntry B × Nat) → List (MapEntry B × Nat)}
    (hiter : ∀ l, (intoIter l).Perm l) {arrivals : List Op}
    (harrivals : arrivals.Perm primary.operators) :
    (∀ count cursor, ∃ result : Option (MapPage B),
      executeCallback intoIter true (.hscan count cursor) primary secondary
          (arrivals.map fun o => (o, f o)) =
        some (result.elim (.error .internal) fun page => .ok (.mapPage page)) ∧
      (result = none ↔
        primary.operators.countP (fun o => (page? (f o)).isSome) < majorityQuorumThreshold) ∧
      ∀ page, result = some page →
        page.entries.Pairwise (fun a b => a.field < b.field) ∧
        (∀ e, e ∈ page.entries ↔ majorityQuorumThreshold ≤
          primary.operators.countP fun o => (page? (f o)).any fun page => e ∈ page.entries) ∧
        (page.hasNext = true ↔ majorityQuorumThreshold ≤
          primary.operators.countP fun o => (page? (f o)).any MapPage.hasNext)) ∧
    ∃ result : Option Nat,
      executeCallback intoIter true .hcard primary secondary (arrivals.map fun o => (o, f o)) =
        some (result.elim (.error .internal) fun card => .ok (.cardinality card)) ∧
      (result = none ↔
        primary.operators.countP (fun o => (cardinality? (f o)).isSome) < majorityQuorumThreshold) ∧
      ∀ card, result = some card →
        (∃ o ∈ primary.operators, cardinality? (f o) = some card) ∧
        majorityQuorumThreshold ≤
          primary.operators.countP (fun o => (cardinality? (f o)).any (· ≤ card)) ∧
        ∀ c, (∃ o ∈ primary.operators, cardinality? (f o) = some c) →
          majorityQuorumThreshold ≤
            primary.operators.countP (fun o => (cardinality? (f o)).any (· ≤ c)) → card ≤ c := by
  have hreply : ∀ operation : Operation B, operation.isWrite = false → _ := fun operation hread =>
    executeCallback_reconciled secondary hd hno hiter harrivals hread
  constructor
  · intro count cursor
    refine ⟨reconciledPage ((primary.operators.map f).filterMap page?), ?_, ?_, fun page hpage => ?_⟩
    · rw [hreply _ rfl, reconciled]
      cases reconciledPage ((primary.operators.map f).filterMap page?) <;> rfl
    · rw [reconciledPage_eq_none, length_responses]
    · have hlen : ((primary.operators.map f).filterMap page?).length ≤ rf := by
        refine (List.length_filterMap_le _ _).trans ?_
        rw [List.length_map, primary.length_operators]
      simpa only [countP_responses] using reconciledPage_spec hd hlen hpage
  · refine ⟨reconciledCardinality ((primary.operators.map f).filterMap cardinality?), ?_, ?_,
      fun card hcard => ?_⟩
    · rw [hreply _ rfl, reconciled]
      cases reconciledCardinality ((primary.operators.map f).filterMap cardinality?) <;> rfl
    · rw [reconciledCardinality_eq_none, length_responses]
    · have hspec := reconciledCardinality_spec hcard
      simpa only [countP_responses, List.mem_filterMap, List.mem_map, exists_exists_and_eq_and] using hspec

/-- Five replicas with three pages that differ, a missing page and a failure. -/
theorem reconciled_votes_pages :
    let primary : ReplicaSet Nat := ⟨[0, 1, 2, 3, 4], rfl, by decide⟩
    let a : MapEntry Nat := ⟨0, ⟨1, 50, 5⟩⟩
    let b : MapEntry Nat := ⟨1, ⟨2, 50, 6⟩⟩
    let f : Nat → Response Nat := fun
      | 0 => .ok (.mapPage ⟨[a, b], true⟩)
      | 1 => .ok (.mapPage ⟨[a], true⟩)
      | 2 => .ok (.mapPage ⟨[a, b], false⟩)
      | 3 => .ok (.cardinality 2)
      | _ => .error .internal
    ∃ result : Option (MapPage Nat),
      executeCallback id true (.hscan 10 none) primary none ([4, 2, 0, 3, 1].map fun o => (o, f o)) =
        some (result.elim (.error .internal) fun page => .ok (.mapPage page)) ∧
      ∀ page, result = some page → ∀ e, e ∈ page.entries ↔ majorityQuorumThreshold ≤
        primary.operators.countP fun o => (page? (f o)).any fun page => e ∈ page.entries := by
  intro primary a b f
  have hd : DistinctFields ((primary.operators.map f).filterMap page?) := by
    unfold DistinctFields
    decide
  have hnodup : (primary.operators.map f).Nodup := by decide
  have hno : ∀ r, primary.operators.countP (f · = r) < majorityQuorumThreshold := fun r => by
    have hone := List.nodup_iff_count_le_one.mp hnodup r
    rw [List.count_eq_countP, List.countP_map] at hone
    refine Nat.lt_of_le_of_lt (hone.trans' (le_of_eq (List.countP_congr fun o _ => ?_))) (by decide)
    simp
  have harrivals : [4, 2, 0, 3, 1].Perm primary.operators := by decide
  obtain ⟨result, hreply, -, hpage⟩ :=
    (reconciled_votes none hd hno (fun l => .refl (id l)) harrivals).1 10 none
  exact ⟨result, hreply, fun page h => (hpage page h).2.1⟩

end Replication
end Wcn
