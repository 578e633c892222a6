import Wcn.Lib.Majority
import Wcn.Replication.Coordinator

/-!
# Wcn.Replication.Tally

What the coordinator's loop holds after the operators `seen` answered, in any order.

* `Seen`: the buffer holds the distinct responses, and each quorum counts the operators of its set
  by response (`Counted`).
* `receive_seen`: one response keeps this up, and never finds the buffer full.
* `collect_keeps`: what every response keeps up, the loop does. `collect_seen` is this for `Seen`.
-/

namespace Wcn
namespace Replication

open StorageApi Lib

variable {B Op : Type} [DecidableEq B] [DecidableEq Op]

/-! ## The response buffer -/

def remember (filled : List (Response B)) (response : Response B) : List (Response B) :=
  if response ∈ filled then filled else filled ++ [response]

/-- A buffer of `rf * 2` slots whose first ones are filled. -/
def buffer (filled : List (Response B)) : List (Option (Response B)) :=
  filled.map some ++ List.replicate (rf * 2 - filled.length) none

theorem receiveResponse_mem {filled : List (Response B)} {response : Response B}
    (h : response ∈ filled) (free : List (Option (Response B))) :
    receiveResponse (filled.map some ++ free) response =
      some (filled.map some ++ free, filled.idxOf response) := by
  induction filled with
  | nil => cases h
  | cons resp filled ih =>
    simp only [List.map_cons, List.cons_append, receiveResponse]
    by_cases heq : resp = response
    · subst heq
      simp
    · have hmem : response ∈ filled := by
        rcases List.mem_cons.mp h with rfl | h
        · exact absurd rfl heq
        · exact h
      rw [if_neg heq, ih hmem, List.idxOf_cons_ne _ heq]

theorem receiveResponse_new {filled : List (Response B)} {response : Response B}
    (h : response ∉ filled) (free : List (Option (Response B))) :
    receiveResponse (filled.map some ++ none :: free) response =
      some ((filled ++ [response]).map some ++ free, filled.length) := by
  induction filled with
  | nil => rfl
  | cons resp filled ih =>
    simp only [List.mem_cons, not_or] at h
    simp only [List.map_cons, List.cons_append, receiveResponse]
    rw [if_neg fun heq => h.1 heq.symm, ih h.2]
    rfl

/-- A response is found or stored, as long as there is a slot for it. -/
theorem receiveResponse_buffer {filled : List (Response B)} {response : Response B}
    (h : (remember filled response).length ≤ rf * 2) :
    receiveResponse (buffer filled) response =
      some (buffer (remember filled response), (remember filled response).idxOf response) := by
  unfold remember at h ⊢
  by_cases hmem : response ∈ filled
  · simp only [if_pos hmem]
    exact receiveResponse_mem hmem _
  · simp only [if_neg hmem, List.length_append, List.length_singleton] at h ⊢
    obtain ⟨free, hfree⟩ : ∃ free, rf * 2 - filled.length = free + 1 :=
      ⟨rf * 2 - filled.length - 1, by omega⟩
    have hrest : rf * 2 - (filled.length + 1) = free := by omega
    unfold buffer
    rw [hfree, List.replicate_succ, receiveResponse_new hmem, List.idxOf_append_of_notMem hmem]
    simp [hrest]

theorem nodup_remember {filled : List (Response B)} (h : filled.Nodup) (response : Response B) :
    (remember filled response).Nodup := by
  unfold remember
  split
  · exact h
  · rename_i hmem
    rw [← List.concat_eq_append]
    exact h.concat hmem

theorem mem_remember {filled : List (Response B)} {response x : Response B} :
    x ∈ remember filled response ↔ x ∈ filled ∨ x = response := by
  unfold remember
  split
  · rename_i hmem
    constructor
    · exact .inl
    · rintro (h | rfl)
      · exact h
      · exact hmem
  · simp

/-! ## Counting one replica set -/

/-- How many of the operators of `rs` among `seen` answered `response`. -/
def tally (rs : List Op) (f : Op → Response B) (seen : List Op) (response : Response B) : Nat :=
  seen.countP fun o => o ∈ rs ∧ f o = response

/-- The weights of a buffer. -/
def slotWeights (filled : List (Response B)) (weight : Response B → Nat) : List Nat :=
  filled.map weight ++ List.replicate (rf * 2 - filled.length) 0

/-- `quorum` has counted the operators of `rs` among `seen`. -/
structure Counted (quorum : Quorum Op) (rs : ReplicaSet Op) (f : Op → Response B)
    (seen : List Op) (filled : List (Response B)) : Prop where
  replicaSet : quorum.replicaSet = rs.operators
  weights : quorum.replicasPerResponse = slotWeights filled (tally rs.operators f seen)
  idx : ∀ i, quorum.responseIdx = some i ↔
    ∃ r, filled[i]? = some r ∧ majorityQuorumThreshold ≤ tally rs.operators f seen r

/-- No two responses both reach a majority of one replica set. -/
theorem tally_unique (rs : ReplicaSet Op) (f : Op → Response B) {seen : List Op}
    (hseen : seen.Nodup) {r r' : Response B}
    (hr : majorityQuorumThreshold ≤ tally rs.operators f seen r)
    (hr' : majorityQuorumThreshold ≤ tally rs.operators f seen r') : r = r' := by
  have hsub : ∀ x, seen.filter (fun o => o ∈ rs.operators ∧ f o = x) ⊆ rs.operators := by
    intro x o ho
    have := (List.mem_filter.mp ho).2
    simp only [decide_eq_true_eq] at this
    exact this.1
  obtain ⟨o, ho, ho'⟩ := exists_mem_both (hseen.filter _) (hseen.filter _) (hsub r) (hsub r') (by
    rw [← List.countP_eq_length_filter, ← List.countP_eq_length_filter, rs.length_operators]
    change rf < tally _ f seen r + tally _ f seen r'
    simp only [majorityQuorumThreshold, rf] at hr hr' ⊢
    omega)
  have h := (List.mem_filter.mp ho).2
  have h' := (List.mem_filter.mp ho').2
  simp only [decide_eq_true_eq] at h h'
  rw [← h.2, ← h'.2]

theorem tally_append_singleton (rs : List Op) (f : Op → Response B) (seen : List Op) (o : Op)
    (response : Response B) :
    tally rs f (seen ++ [o]) response =
      tally rs f seen response + if o ∈ rs ∧ f o = response then 1 else 0 := by
  simp [tally, List.countP_append, List.countP_singleton]

omit [DecidableEq B] [DecidableEq Op] in
theorem slotWeights_congr {filled : List (Response B)} {g g' : Response B → Nat}
    (h : ∀ r ∈ filled, g r = g' r) :
    slotWeights filled g = slotWeights filled g' := by
  unfold slotWeights
  rw [List.map_congr_left h]

omit [DecidableEq Op] in
/-- A response nobody has given yet gets a slot that still counts zero. -/
theorem slotWeights_remember {filled : List (Response B)} {r : Response B} {g : Response B → Nat}
    (hlen : (remember filled r).length ≤ rf * 2) (hnew : r ∉ filled → g r = 0) :
    slotWeights (remember filled r) g = slotWeights filled g := by
  unfold remember at hlen ⊢
  by_cases hmem : r ∈ filled
  · rw [if_pos hmem]
  · simp only [if_neg hmem, List.length_append, List.length_singleton] at hlen ⊢
    obtain ⟨free, hfree⟩ : ∃ free, rf * 2 - filled.length = free + 1 :=
      ⟨rf * 2 - filled.length - 1, by omega⟩
    have hrest : rf * 2 - (filled.length + 1) = free := by omega
    simp [slotWeights, hfree, hrest, hnew hmem, List.replicate_succ]

omit [DecidableEq Op] in
theorem modify_idxOf {filled : List (Response B)} {r : Response B} (hnd : filled.Nodup)
    (hmem : r ∈ filled) (g : Response B → Nat) (h : Nat → Nat) (rest : List Nat) :
    (filled.map g ++ rest).modify (filled.idxOf r) h =
      filled.map (fun x => if x = r then h (g x) else g x) ++ rest := by
  induction filled with
  | nil => cases hmem
  | cons x filled ih =>
    obtain ⟨hx, hnd⟩ := List.nodup_cons.mp hnd
    by_cases heq : x = r
    · subst heq
      have hrest : filled.map (fun y => if y = x then h (g y) else g y) = filled.map g :=
        List.map_congr_left fun y hy => if_neg fun (hyx : y = x) => hx (hyx ▸ hy)
      simp [hrest]
    · have hmem : r ∈ filled := by
        rcases List.mem_cons.mp hmem with rfl | h
        · exact absurd rfl heq
        · exact h
      rw [List.idxOf_cons_ne _ heq]
      simp [heq, ih hnd hmem]

omit [DecidableEq Op] in
theorem mem_remember_self (filled : List (Response B)) (r : Response B) : r ∈ remember filled r :=
  mem_remember.mpr (.inr rfl)

omit [DecidableEq Op] in
/-- A response that was there keeps its position. -/
theorem getElem?_remember {filled : List (Response B)} {r x : Response B} (hmem : r ∈ filled)
    (i : Nat) : (remember filled x)[i]? = some r ↔ filled[i]? = some r := by
  unfold remember
  split
  · rfl
  · rename_i hnot
    rcases Nat.lt_or_ge i filled.length with hlt | hge
    · rw [List.getElem?_append_left hlt]
    · rw [List.getElem?_append_right hge, List.getElem?_eq_none hge]
      constructor
      · intro h
        obtain ⟨hlt, heq⟩ := List.getElem?_eq_some_iff.mp h
        simp only [List.getElem_singleton] at heq
        exact absurd (heq ▸ hmem) hnot
      · intro h
        cases h

section Received

variable {rs : ReplicaSet Op} {f : Op → Response B} {seen : List Op} {filled : List (Response B)}
  {o : Op}

/-- Nobody has given a response that is not in the buffer. -/
theorem tally_eq_zero (hfilled : ∀ r, r ∈ filled ↔ r ∈ seen.map f) {r : Response B}
    (hnot : r ∉ filled) : tally rs.operators f seen r = 0 := by
  refine List.countP_eq_zero.mpr fun x hx => ?_
  simp only [decide_eq_true_eq, not_and]
  intro _ hxr
  exact hnot ((hfilled r).mpr (List.mem_map.mpr ⟨x, hx, hxr⟩))

theorem mem_of_majority (hfilled : ∀ r, r ∈ filled ↔ r ∈ seen.map f) {r : Response B}
    (hmaj : majorityQuorumThreshold ≤ tally rs.operators f seen r) : r ∈ filled := by
  by_contra hnot
  rw [tally_eq_zero hfilled hnot] at hmaj
  simp [majorityQuorumThreshold, rf] at hmaj

/-- Taking in a response leaves the positions of the responses with a majority. -/
theorem majority_remember (hfilled : ∀ r, r ∈ filled ↔ r ∈ seen.map f) (x : Response B) (i : Nat) :
    (∃ r, (remember filled x)[i]? = some r ∧
      majorityQuorumThreshold ≤ tally rs.operators f seen r) ↔
    ∃ r, filled[i]? = some r ∧ majorityQuorumThreshold ≤ tally rs.operators f seen r :=
  exists_congr fun _ => and_congr_left fun hmaj =>
    getElem?_remember (mem_of_majority hfilled hmaj) i

theorem tally_of_notMem (ho : o ∉ rs.operators) :
    tally rs.operators f (seen ++ [o]) = tally rs.operators f seen := by
  funext r
  rw [tally_append_singleton, if_neg fun hc => ho hc.1, Nat.add_zero]

theorem tally_of_ne {r : Response B} (hr : r ≠ f o) :
    tally rs.operators f (seen ++ [o]) r = tally rs.operators f seen r := by
  rw [tally_append_singleton, if_neg fun hc => hr hc.2.symm, Nat.add_zero]

/-- Without a majority for the new response, the others have one or not as before. -/
theorem majority_append (hnot : ¬ majorityQuorumThreshold ≤ tally rs.operators f (seen ++ [o]) (f o))
    (r : Response B) : majorityQuorumThreshold ≤ tally rs.operators f (seen ++ [o]) r ↔
      majorityQuorumThreshold ≤ tally rs.operators f seen r := by
  by_cases hr : r = f o
  · subst hr
    have hle : tally rs.operators f seen (f o) ≤ tally rs.operators f (seen ++ [o]) (f o) := by
      rw [tally_append_singleton]
      omega
    exact iff_of_false hnot fun hmaj => hnot (hmaj.trans hle)
  · rw [tally_of_ne hr]

/-- Counting the response at its position. -/
theorem modify_slotWeights (hnd : filled.Nodup) (hmem : f o ∈ filled) (ho : o ∈ rs.operators) :
    (slotWeights filled (tally rs.operators f seen)).modify (filled.idxOf (f o)) (· + 1) =
      slotWeights filled (tally rs.operators f (seen ++ [o])) := by
  rw [slotWeights, modify_idxOf hnd hmem]
  refine slotWeights_congr fun r _ => ?_
  rw [tally_append_singleton]
  by_cases hr : r = f o
  · simp [hr, ho]
  · have hr' : ¬ f o = r := fun heq => hr heq.symm
    simp [hr, hr']

omit [DecidableEq Op] in
theorem getD_slotWeights {r : Response B} (hmem : r ∈ filled) (weight : Response B → Nat) :
    (slotWeights filled weight).getD (filled.idxOf r) 0 = weight r := by
  have hlt := List.idxOf_lt_length_iff.mpr hmem
  simp [slotWeights, List.getD_eq_getElem?_getD, List.getElem?_append_left, hlt]

/-- Only the response with a majority is at the position of one. -/
theorem idxOf_majority (hnd : filled.Nodup) (hseen : seen.Nodup) {r : Response B}
    (hmem : r ∈ filled) (hmaj : majorityQuorumThreshold ≤ tally rs.operators f seen r) (i : Nat) :
    some (filled.idxOf r) = some i ↔
      ∃ r', filled[i]? = some r' ∧ majorityQuorumThreshold ≤ tally rs.operators f seen r' := by
  constructor
  · intro hi
    cases hi
    exact ⟨r, List.getElem?_idxOf hmem, hmaj⟩
  · rintro ⟨r', hr', hmaj'⟩
    have heq := tally_unique rs f hseen hmaj' hmaj
    obtain ⟨hlt, hget⟩ := List.getElem?_eq_some_iff.mp hr'
    have hidx := hnd.idxOf_getElem i hlt
    rw [hget, heq] at hidx
    rw [hidx]

/-- One operator's response, at its position in the buffer, is counted. -/
theorem Counted.received {quorum : Quorum Op} (h : Counted quorum rs f seen filled)
    (hnd : filled.Nodup) (hfilled : ∀ r, r ∈ filled ↔ r ∈ seen.map f)
    (hseen : (seen ++ [o]).Nodup) (hlen : (remember filled (f o)).length ≤ rf * 2) :
    Counted (quorum.responseReceived o ((remember filled (f o)).idxOf (f o))) rs f (seen ++ [o])
      (remember filled (f o)) := by
  have hnd' := nodup_remember hnd (f o)
  have hmem' := mem_remember_self filled (f o)
  have hweights : quorum.replicasPerResponse =
      slotWeights (remember filled (f o)) (tally rs.operators f seen) :=
    h.weights.trans (slotWeights_remember hlen (tally_eq_zero hfilled)).symm
  unfold Quorum.responseReceived
  rw [h.replicaSet]
  by_cases ho : o ∈ rs.operators
  · rw [if_pos ho, hweights, modify_slotWeights hnd' hmem' ho]
    refine ⟨rfl, rfl, fun i => ?_⟩
    simp only [getD_slotWeights hmem']
    split
    · rename_i hmaj
      exact idxOf_majority hnd' hseen hmem' hmaj i
    · rename_i hmaj
      simp only [h.idx, majority_append hmaj, majority_remember hfilled]
  · rw [if_neg ho]
    refine ⟨h.replicaSet, ?_, fun i => ?_⟩
    · rw [hweights, tally_of_notMem ho]
    · rw [h.idx, tally_of_notMem ho, majority_remember hfilled]

end Received

/-! ## The loop -/

/-- The collector after the operators `seen` answered. -/
structure Seen (collector : Collector B Op) (primary : ReplicaSet Op)
    (secondary : Option (ReplicaSet Op)) (f : Op → Response B) (seen : List Op)
    (filled : List (Response B)) : Prop where
  nodup : filled.Nodup
  mem : ∀ r, r ∈ filled ↔ r ∈ seen.map f
  responses : collector.responses = buffer filled
  primary : Counted collector.primary primary f seen filled
  secondary : match collector.secondary, secondary with
    | some quorum, some rs => Counted quorum rs f seen filled
    | none, none => True
    | _, _ => False

theorem counted_new (rs : ReplicaSet Op) (f : Op → Response B) :
    Counted (.new rs) rs f [] [] where
  replicaSet := rfl
  weights := rfl
  idx i := by simp [Quorum.new]

theorem seen_new (primary : ReplicaSet Op) (secondary : Option (ReplicaSet Op))
    (f : Op → Response B) : Seen (.new primary secondary) primary secondary f [] [] where
  nodup := List.nodup_nil
  mem r := by simp
  responses := rfl
  primary := counted_new primary f
  secondary := by
    cases secondary with
    | none => trivial
    | some rs => exact counted_new rs f

section Loop

variable {primary : ReplicaSet Op} {secondary : Option (ReplicaSet Op)} {f : Op → Response B}
  {collector collector' : Collector B Op} {seen : List Op} {filled : List (Response B)}

theorem Seen.exists_counted (h : Seen collector primary secondary f seen filled)
    {rs : ReplicaSet Op} (hrs : secondary = some rs) :
    ∃ quorum, collector.secondary = some quorum ∧ Counted quorum rs f seen filled := by
  have hsec := h.secondary
  rw [hrs] at hsec
  cases hc : collector.secondary with
  | none =>
    rw [hc] at hsec
    exact hsec.elim
  | some quorum =>
    rw [hc] at hsec
    exact ⟨quorum, rfl, hsec⟩

theorem Seen.exists_secondary (h : Seen collector primary secondary f seen filled)
    {quorum : Quorum Op} (hc : collector.secondary = some quorum) :
    ∃ rs, secondary = some rs ∧ Counted quorum rs f seen filled := by
  have hsec := h.secondary
  rw [hc] at hsec
  cases hrs : secondary with
  | none =>
    rw [hrs] at hsec
    exact hsec.elim
  | some rs =>
    rw [hrs] at hsec
    exact ⟨rs, rfl, hsec⟩

theorem Seen.length_le (h : Seen collector primary secondary f seen filled) :
    filled.length ≤ seen.length := by
  have hsub : filled ⊆ seen.map f := fun r hr => (h.mem r).mp hr
  simpa using (List.subperm_of_subset h.nodup hsub).length_le

/-- While no more than `rf * 2` operators answer, receiving a response does not panic. -/
theorem receive_seen (h : Seen collector primary secondary f seen filled) {o : Op}
    (hseen : (seen ++ [o]).Nodup) (hlen : seen.length < rf * 2) :
    ∃ collector', collector.receive o (f o) = some collector' ∧
      collector'.primary =
        collector.primary.responseReceived o ((remember filled (f o)).idxOf (f o)) ∧
      Seen collector' primary secondary f (seen ++ [o]) (remember filled (f o)) := by
  have hfit : (remember filled (f o)).length ≤ rf * 2 := by
    have hle := h.length_le
    unfold remember
    split
    · omega
    · rw [List.length_append, List.length_singleton]
      omega
  rw [Collector.receive, h.responses, receiveResponse_buffer hfit]
  refine ⟨_, rfl, rfl, ?_, ?_, rfl, ?_, ?_⟩
  · exact nodup_remember h.nodup (f o)
  · intro r
    rw [mem_remember, h.mem, List.map_append, List.mem_append, List.map_singleton,
      List.mem_singleton]
  · exact h.primary.received h.nodup h.mem hseen hfit
  · have hsec := h.secondary
    cases hc : collector.secondary with
    | none =>
      rw [hc] at hsec
      cases secondary with
      | none => trivial
      | some rs => exact hsec
    | some quorum =>
      rw [hc] at hsec
      cases secondary with
      | none => exact hsec
      | some rs => exact Counted.received hsec h.nodup h.mem hseen hfit

/-- What every response keeps holds when the loop ends. It has then seen the operators up to some point
of the arrival order: it broke with a verdict there, or it has none and has seen everybody. -/
theorem collect_keeps {P : Collector B Op → List Op → Prop}
    (hstep : ∀ {collector : Collector B Op} {seen : List Op} {o : Op}, P collector seen →
      (seen ++ [o]).Nodup → seen.length < rf * 2 →
      ∃ collector', collector.receive o (f o) = some collector' ∧ P collector' (seen ++ [o]))
    (h : P collector seen) (rest : List Op) (hnd : (seen ++ rest).Nodup)
    (hlen : (seen ++ rest).length ≤ rf * 2) (hverdict : collector.verdict = none) :
    ∃ collector' idx late seen',
      collector.collect (rest.map fun o => (o, f o)) = some (collector', idx, late) ∧
      P collector' seen' ∧
      (∃ rest', seen' ++ rest' = seen ++ rest ∧ late = rest'.map fun o => (o, f o)) ∧
      (collector'.verdict = some idx ∨
        (collector'.verdict = none ∧ idx = none ∧ seen' = seen ++ rest)) := by
  induction rest generalizing collector seen with
  | nil =>
    exact ⟨collector, none, [], seen, rfl, h, ⟨[], rfl, rfl⟩, .inr ⟨hverdict, rfl, by simp⟩⟩
  | cons o rest ih =>
    have hsplit : seen ++ o :: rest = (seen ++ [o]) ++ rest := by simp
    rw [hsplit] at hnd hlen
    have hseen : (seen ++ [o]).Nodup := hnd.of_append_left
    have hlt : seen.length < rf * 2 := by
      simp only [List.length_append, List.length_singleton] at hlen
      omega
    obtain ⟨collector', hrecv, h'⟩ := hstep h hseen hlt
    simp only [List.map_cons, Collector.collect, hrecv]
    cases hv : collector'.verdict with
    | some idx => exact ⟨collector', idx, _, seen ++ [o], rfl, h', ⟨rest, by simp, rfl⟩, .inl hv⟩
    | none =>
      obtain ⟨c, idx, late, seen', hc, hs, hrest, hend⟩ := ih h' hnd hlen hv
      rw [← hsplit] at hrest hend
      exact ⟨c, idx, late, seen', hc, hs, hrest, hend⟩

theorem collect_seen (h : Seen collector primary secondary f seen filled) (rest : List Op)
    (hnd : (seen ++ rest).Nodup) (hlen : (seen ++ rest).length ≤ rf * 2)
    (hverdict : collector.verdict = none) :
    ∃ collector' idx late seen' filled',
      collector.collect (rest.map fun o => (o, f o)) = some (collector', idx, late) ∧
      Seen collector' primary secondary f seen' filled' ∧
      (∃ rest', seen' ++ rest' = seen ++ rest ∧ late = rest'.map fun o => (o, f o)) ∧
      (collector'.verdict = some idx ∨
        (collector'.verdict = none ∧ idx = none ∧ seen' = seen ++ rest)) := by
  let Counts (collector : Collector B Op) (seen : List Op) : Prop :=
    ∃ filled, Seen collector primary secondary f seen filled
  have hstep : ∀ {collector : Collector B Op} {seen : List Op} {o : Op}, Counts collector seen →
      (seen ++ [o]).Nodup → seen.length < rf * 2 →
      ∃ collector', collector.receive o (f o) = some collector' ∧ Counts collector' (seen ++ [o]) := by
    rintro collector seen o ⟨filled, h⟩ hseen hlt
    obtain ⟨collector', hrecv, -, h'⟩ := receive_seen h hseen hlt
    exact ⟨collector', hrecv, _, h'⟩
  obtain ⟨collector', idx, late, seen', hcollect, ⟨filled', h'⟩, hend⟩ :=
    collect_keeps hstep ⟨filled, h⟩ rest hnd hlen hverdict
  exact ⟨collector', idx, late, seen', filled', hcollect, h', hend⟩

end Loop

end Replication
end Wcn
