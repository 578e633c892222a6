import Wcn.Lib.RoundRobin
import Wcn.Cluster.Stored

/-!
# Wcn.Cluster.LoadBalancing

Picking the next operator, or the next node of an operator, by a counter that goes round.

* `next`, `findNextOperator`, `findNextNode` — with the reading of the counter as a parameter, and
  its new value as part of the result. A search also returns the positions its callback was called
  at.
* `Stored.len_pos`, `Stored.applyEvent_ne_panic` — next to the chain, there is always an operator
  to pick, and no event panics.
* `fair_findNext_iff` — a search tries everybody, unless the counter wraps around in the middle of
  it. For a number of operators that divides `2 ^ 64` that does not matter.
-/

namespace Wcn
namespace Cluster

open Lib
open Contract (Address Env Call Transition sixOperators transaction after)
open Contract.Bitmask

variable {S D : Type} {α R : Type}

/-! ## Searching -/

inductive SelectPanic where
  /-- `debug_assert!(!is_empty())`. Where assertions are off, `next` divides by zero. -/
  | empty
  | indexOutOfBounds
  /-- `as_ref().unwrap()` of an empty slot. -/
  | emptySlot
deriving DecidableEq

/-- What a search returned, and the positions its callback was called at. -/
structure Search (R : Type) where
  result : Option R
  called : List Nat
deriving DecidableEq

/-- `usize::MAX`, which `from_slots` and `NodeOperator::new` start the counter with. -/
def initialCounter : UInt64 := 18446744073709551615

/-- `idx.wrapping_add(offset) % num`. -/
def position (num : Nat) (offset : UInt64) (idx : Nat) : Nat :=
  (UInt64.ofNat idx + offset).toNat % num

/-- The loop of a search, over the positions it goes through. -/
def tryPositions (get : Nat → Except SelectPanic α) (cb : α → Option R) :
    List Nat → Except SelectPanic (Search R)
  | [] => .ok ⟨none, []⟩
  | idx :: rest => do
    let element ← get idx
    match cb element with
    | some res => .ok ⟨some res, [idx]⟩
    | none => do
      let search ← tryPositions get cb rest
      .ok ⟨search.result, idx :: search.called⟩

/-- The body that `find_next_operator` and `find_next_node` share. -/
def findNext (num : Nat) (get : Nat → Except SelectPanic α) (cb : α → Option R) (counter : UInt64) :
    Except SelectPanic (Search R × UInt64) :=
  if num = 0 then
    .error .empty
  else do
    let search ← tryPositions get cb ((List.range num).map (position num counter))
    .ok (search, counter + 1)

namespace NodeOperators

/-- `slots[id_to_idx[position]].as_ref().unwrap()`. -/
def atPosition (operators : NodeOperators D) (position : Nat) :
    Except SelectPanic (NodeOperator D) :=
  match operators.idToIdx.valueAt? position with
  | none => .error .indexOutOfBounds
  | some idx =>
    match operators.slots[idx.val]? with
    | none => .error .indexOutOfBounds
    | some none => .error .emptySlot
    | some (some operator) => .ok operator

def findNextOperator (operators : NodeOperators D) (cb : NodeOperator D → Option R)
    (counter : UInt64) : Except SelectPanic (Search R × UInt64) :=
  findNext operators.idToIdx.len operators.atPosition cb counter

def next (operators : NodeOperators D) (counter : UInt64) :
    Except SelectPanic (NodeOperator D × UInt64) :=
  if operators.idToIdx.len = 0 then
    .error .empty
  else do
    let operator ← operators.atPosition (counter.toNat % operators.idToIdx.len)
    .ok (operator, counter + 1)

end NodeOperators

namespace NodeOperator

def nodeAt (nodes : List α) (idx : Nat) : Except SelectPanic α :=
  match nodes[idx]? with
  | some node => .ok node
  | none => .error .indexOutOfBounds

/-- Over the nodes of an operator. -/
def findNextNode (nodes : List α) (cb : α → Option R) (counter : UInt64) :
    Except SelectPanic (Search R × UInt64) :=
  findNext nodes.length (nodeAt nodes) cb counter

end NodeOperator

section Search

variable {num : Nat} {get : Nat → Except SelectPanic α}

theorem position_eq (num : Nat) (offset : UInt64) :
    position num offset = turn (2 ^ 64) num offset.toNat := by
  funext idx
  rw [position, turn, UInt64.toNat_add, UInt64.toNat_ofNat', Nat.mod_add_mod]

/-- What the callback says about the element at a position. -/
def answerAt (get : Nat → Except SelectPanic α) (cb : α → Option R) (idx : Nat) : Option R :=
  (get idx).toOption.bind cb

/-- The first match is returned. A search without a match has called back at every position. -/
theorem tryPositions_eq_ok {positions : List Nat} (cb : α → Option R)
    (hget : ∀ idx ∈ positions, ∃ a, get idx = .ok a) :
    ∃ search, tryPositions get cb positions = .ok search ∧
      search.result = positions.findSome? (answerAt get cb) ∧
      (search.result = none → search.called = positions) := by
  induction positions with
  | nil => exact ⟨⟨none, []⟩, rfl, rfl, fun _ => rfl⟩
  | cons idx rest ih =>
    obtain ⟨search, hrest, hresult, hall⟩ := ih fun idx' h => hget idx' (List.mem_cons_of_mem idx h)
    obtain ⟨a, ha⟩ := hget idx List.mem_cons_self
    have hanswer : answerAt get cb idx = cb a := by
      rw [answerAt, ha]
      rfl
    rw [tryPositions, ha, List.findSome?_cons, hanswer]
    cases hcb : cb a with
    | some res =>
      refine ⟨⟨some res, [idx]⟩, ?_, rfl, fun h => by cases h⟩
      simp only [bind, Except.bind, hcb]
    | none =>
      refine ⟨⟨search.result, idx :: search.called⟩, ?_, hresult, fun h => ?_⟩
      · simp only [bind, Except.bind, hcb, hrest]
      · rw [← hall h]

theorem findNext_eq_ok (hpos : 0 < num) (hget : ∀ idx < num, ∃ a, get idx = .ok a)
    (cb : α → Option R) (counter : UInt64) :
    ∃ search, findNext num get cb counter = .ok (search, counter + 1) ∧
      search.result = ((List.range num).map (turn (2 ^ 64) num counter.toNat)).findSome?
        (answerAt get cb) ∧
      (search.result = none →
        search.called = (List.range num).map (turn (2 ^ 64) num counter.toNat)) := by
  have hpositions : ∀ idx ∈ (List.range num).map (turn (2 ^ 64) num counter.toNat),
      ∃ a, get idx = .ok a := by
    intro idx hidx
    obtain ⟨i, _, rfl⟩ := List.mem_map.mp hidx
    exact hget _ (turn_lt hpos i)
  obtain ⟨search, htry, hresult, hall⟩ := tryPositions_eq_ok cb hpositions
  refine ⟨search, ?_, hresult, hall⟩
  rw [findNext, if_neg (Nat.ne_of_gt hpos), position_eq, bind_eq_ok]
  exact ⟨search, htry, rfl⟩

/-- The search calls back at each position once when nothing matches, and finds nothing only if
nothing matches. -/
structure Fair (num : Nat) (mem : α → Prop)
    (find : (R : Type) → (α → Option R) → Except SelectPanic (Search R × UInt64)) : Prop where
  once : ∃ search counter, find Unit (fun _ => none) = .ok (search, counter) ∧
    search.result = none ∧ search.called.Perm (List.range num)
  complete : ∀ (R : Type) (cb : α → Option R) (search : Search R) (counter : UInt64),
    find R cb = .ok (search, counter) → search.result = none → ∀ a, mem a → cb a = none

theorem fair_findNext_iff {mem : α → Prop} (hpos : 0 < num) (hnum : num ≤ 2 ^ 64)
    (hget : ∀ idx < num, ∃ a, get idx = .ok a) (hmem : ∀ a, mem a → ∃ idx < num, get idx = .ok a)
    (counter : UInt64) :
    Fair num mem (fun _ cb => findNext num get cb counter) ↔
      counter.toNat + num ≤ 2 ^ 64 ∨ num ∣ 2 ^ 64 := by
  rw [← perm_turns_iff hpos counter.toNat_lt hnum]
  constructor
  · intro hfair
    obtain ⟨search, counter', hsearch, hnone, hperm⟩ := hfair.once
    obtain ⟨search', hsearch', _, hcalled⟩ :=
      findNext_eq_ok (R := Unit) hpos hget (fun _ => none) counter
    cases hsearch.symm.trans hsearch'
    rwa [hcalled hnone] at hperm
  · intro hperm
    constructor
    case once =>
      obtain ⟨search, hsearch, hresult, hcalled⟩ :=
        findNext_eq_ok (R := Unit) hpos hget (fun _ => none) counter
      have hnone : search.result = none := by
        rw [hresult, List.findSome?_eq_none_iff]
        exact fun idx _ => Option.bind_fun_none _
      refine ⟨search, _, hsearch, hnone, ?_⟩
      rw [hcalled hnone]
      exact hperm
    case complete =>
      intro R cb search counter' hsearch hnone a ha
      obtain ⟨search', hsearch', hresult, _⟩ := findNext_eq_ok hpos hget cb counter
      cases hsearch.symm.trans hsearch'
      rw [hresult, List.findSome?_eq_none_iff] at hnone
      obtain ⟨idx, hidx, hget⟩ := hmem a ha
      have hanswer := hnone idx (hperm.mem_iff.mpr (List.mem_range.mpr hidx))
      rwa [answerAt, hget] at hanswer

end Search

/-! ## Operators and nodes -/

namespace NodeOperators

variable {operators : NodeOperators D}

/-- Every position of a consistent index leads to an operator. -/
theorem Consistent.atPosition_eq_ok (hcons : operators.Consistent) {position : Nat}
    (h : position < operators.idToIdx.len) :
    ∃ operator, operators.atPosition position = .ok operator := by
  obtain ⟨id, idx, hvalue, hget⟩ := IndexMap.exists_get?_of_lt h
  obtain ⟨operator, hoperator, _⟩ := (hcons id idx).mp hget
  refine ⟨operator, ?_⟩
  rw [getByIdx, Option.join_eq_some_iff] at hoperator
  simp only [atPosition, hvalue, hoperator]

/-- Every operator has a position. -/
theorem Consistent.exists_atPosition (hcons : operators.Consistent) {idx : Idx}
    {operator : NodeOperator D} (h : operators.getByIdx idx = some operator) :
    ∃ position < operators.idToIdx.len, operators.atPosition position = .ok operator := by
  obtain ⟨position, hlt, hvalue⟩ :=
    IndexMap.exists_valueAt?_of_get? ((hcons operator.id idx).mpr ⟨operator, h, rfl⟩)
  refine ⟨position, hlt, ?_⟩
  rw [getByIdx, Option.join_eq_some_iff] at h
  simp only [atPosition, hvalue, h]

theorem Consistent.next_eq_ok (hcons : operators.Consistent) (hpos : 0 < operators.idToIdx.len)
    (counter : UInt64) : ∃ operator, operators.next counter = .ok (operator, counter + 1) := by
  obtain ⟨operator, hoperator⟩ := hcons.atPosition_eq_ok (Nat.mod_lt counter.toNat hpos)
  refine ⟨operator, ?_⟩
  rw [next, if_neg (Nat.ne_of_gt hpos), bind_eq_ok]
  exact ⟨operator, hoperator, rfl⟩

theorem Consistent.findNextOperator_eq_ok (hcons : operators.Consistent)
    (hpos : 0 < operators.idToIdx.len) (cb : NodeOperator D → Option R) (counter : UInt64) :
    ∃ search, operators.findNextOperator cb counter = .ok (search, counter + 1) := by
  obtain ⟨search, hsearch, _⟩ :=
    findNext_eq_ok hpos (fun _ h => hcons.atPosition_eq_ok h) cb counter
  exact ⟨search, hsearch⟩

end NodeOperators

/-! ## Next to the chain -/

section Chain

variable {cfg : Config S D} {chain : Chain} {view : View S D}

/-- The operators of the keyspace are registered, and there are five of them. -/
theorem Tracks.operatorBitmask_ne_zero {s : Contract.State} (hv : Tracks cfg s view)
    (hs : Contract.Membership s) (hsized : view.Sized) : s.operatorBitmask ≠ 0 := by
  have hcount := hsized.primary
  rw [hv.shows.keyspace] at hcount
  exact ne_zero_of_countSet (hcount.trans (Finset.card_le_card hs.primary))

theorem Stored.len_pos (hc : chain.Linked) (hv : Stored cfg chain view) :
    0 < view.nodeOperators.idToIdx.len := by
  obtain ⟨s, hs, htracks⟩ := hv.tracks
  have h0 := htracks.operatorBitmask_ne_zero (hc.membership s hs) hv.reached.sized
  have hlast := htracks.shows.operators (findLastSet s.operatorBitmask)
  rw [operatorAt, if_pos (findLastSet_mem h0).1] at hlast
  obtain ⟨position, hlt, _⟩ := htracks.consistent.exists_atPosition hlast
  exact Nat.zero_lt_of_lt hlt

/-- The contract hands out its first free slot, so an added operator has a slot in the view or is
the next one after its slots. -/
theorem Stored.applyEvent_ne_panic (hc : chain.Linked) (hv : Stored cfg chain view) {log : Log}
    (hlog : log ∈ chain.logs) {e : SmartContract.Event} (he : log.decode = some e) :
    view.applyEvent cfg e ≠ .error .panic := by
  intro hpanic
  obtain ⟨hnext, hchange⟩ := View.applyEvent_eq_panic hpanic
  obtain ⟨env, call, s, hs, _, _, htransition, he', htracks⟩ := hv.tracks_log hc hlog he hnext
  obtain ⟨idx, operator, version, rfl, hlt⟩ := View.change_eq_panic htracks.consistent hchange
  have h0 := htracks.operatorBitmask_ne_zero (hc.membership s hs) hv.reached.sized
  obtain ⟨time, event⟩ := log
  cases htransition with
  | addNodeOperator _ hfull _ _ _ _ _ =>
    cases he'
    exact absurd (htracks.findFirstUnset_le_length hfull h0) (Nat.not_le.mpr hlt)
  | _ => cases he'

/-- Wherever a node stands next to the chain, its index of operators holds the ids of the occupied
slots and no others, and there are some. No event it may receive panics, and there is always an
operator to pick. -/
theorem stored_slotMap (cfg : Config S D) {env : Env} {settings : Contract.Settings}
    {operators : List Contract.NodeOperator} {s₀ : Contract.State}
    (hinit : Contract.initializeCluster env settings operators = .ok s₀)
    (hnonzero : ∀ op ∈ operators, op.addr ≠ 0)
    (hdistinct : (operators.map Contract.NodeOperator.addr).Nodup) {w : World S D}
    (hrun : Run (World.Step cfg) ⟨⟨s₀, [], []⟩, none, []⟩ w) {task : Task S D}
    (htask : w.task = some task) :
    task.view.nodeOperators.slots.length ≤ 256 ∧
    (∀ id idx, task.view.nodeOperators.getIdx id = some idx ↔ ∃ operator,
      task.view.nodeOperators.getByIdx idx = some operator ∧ operator.id = id) ∧
    0 < task.view.nodeOperators.idToIdx.len ∧
    (∀ log ∈ w.chain.logs, ∀ event, log.decode = some event →
      task.view.applyEvent cfg event ≠ .error .panic) ∧
    (∀ counter, ∃ operator, task.view.nodeOperators.next counter = .ok (operator, counter + 1)) ∧
    ∀ (R : Type) (cb : NodeOperator D → Option R) (counter : UInt64), ∃ search,
      task.view.nodeOperators.findNextOperator cb counter = .ok (search, counter + 1) := by
  have hstores := World.stores_run hinit hnonzero hdistinct hrun
  have hstored := hstores.stored task htask
  have hpos := hstored.len_pos hstores.linked
  obtain ⟨_, _, htracks⟩ := hstored.tracks
  refine ⟨hstored.reached.length_slots, htracks.consistent, hpos, ?_, ?_, ?_⟩
  · intro log hlog event he
    exact hstored.applyEvent_ne_panic hstores.linked hlog he
  · exact htracks.consistent.next_eq_ok hpos
  · intro R cb counter
    exact htracks.consistent.findNextOperator_eq_ok hpos cb counter

/-- A node connects to the six operators' cluster, which then gets a seventh operator. -/
theorem stored_slotMap_added :
    ∃ view, snapshot acceptAll sixOperators = .ok view ∧ 0 < view.nodeOperators.idToIdx.len ∧
      view.applyEvent acceptAll (.nodeOperatorAdded 6 ⟨7, [0]⟩ 2) ≠ .error .panic ∧
      ∀ counter, ∃ operator, view.nodeOperators.next counter = .ok (operator, counter + 1) := by
  obtain ⟨view, hview, hnew⟩ := World.exists_new_sixOperators
  have hadded := Contract.exec_after (transaction 99 11) (.addNodeOperator ⟨7, [0]⟩) sixOperators
    (by decide +kernel)
  have hrun : Run (World.Step acceptAll) ⟨⟨sixOperators, [], []⟩, none, []⟩ _ :=
    .tail (.single (.connect List.mem_cons_self hnew)) (.transaction hadded)
  have hdecode : Log.decode ⟨(transaction 99 11).timestamp,
      (after (transaction 99 11) (.addNodeOperator ⟨7, [0]⟩) sixOperators).2⟩ =
        some (.nodeOperatorAdded 6 ⟨7, [0]⟩ 2) := by
    decide +kernel
  obtain ⟨_, _, hpos, hevents, hnext, _⟩ := stored_slotMap acceptAll
    Contract.initialize_sixOperators (by decide) (by decide) hrun rfl
  exact ⟨view, hview, hpos, hevents _ List.mem_cons_self _ hdecode, hnext⟩

end Chain

/-! ## Trying everybody -/

/-- For every value of the counter, a search calls back for each operator, or each node, exactly
once and misses no match, if and only if the counter does not wrap around during the search or their
number divides `2 ^ 64`. -/
theorem findNext_fair_iff {operators : NodeOperators D} (hcons : operators.Consistent)
    (hoperators : 0 < operators.idToIdx.len ∧ operators.idToIdx.len ≤ 256) {nodes : List α}
    (hnodes : 0 < nodes.length ∧ nodes.length ≤ 256) (counter : UInt64) :
    (Fair operators.idToIdx.len (fun operator => ∃ idx, operators.getByIdx idx = some operator)
        (fun _ cb => operators.findNextOperator cb counter) ↔
      counter.toNat + operators.idToIdx.len ≤ 2 ^ 64 ∨ operators.idToIdx.len ∣ 2 ^ 64) ∧
    (Fair nodes.length (· ∈ nodes) (fun _ cb => NodeOperator.findNextNode nodes cb counter) ↔
      counter.toNat + nodes.length ≤ 2 ^ 64 ∨ nodes.length ∣ 2 ^ 64) := by
  constructor
  · refine fair_findNext_iff hoperators.1 (by omega) (fun _ h => hcons.atPosition_eq_ok h) ?_
      counter
    rintro operator ⟨idx, hidx⟩
    exact hcons.exists_atPosition hidx
  · refine fair_findNext_iff hnodes.1 (by omega) ?_ ?_ counter
    · intro idx h
      exact ⟨nodes.get ⟨idx, h⟩, by rw [NodeOperator.nodeAt, List.getElem?_eq_getElem h]; rfl⟩
    · intro node hnode
      obtain ⟨idx, hidx⟩ := List.mem_iff_getElem?.mp hnode
      refine ⟨idx, (List.getElem?_eq_some_iff.mp hidx).1, ?_⟩
      rw [NodeOperator.nodeAt, hidx]

/-- Once the counter is at zero, everybody is tried. -/
theorem findNext_fair_iff_zero :
    ∃ view, snapshot acceptAll sixOperators = .ok view ∧
      Fair 6 (fun operator => ∃ idx, view.nodeOperators.getByIdx idx = some operator)
        (fun _ cb => view.nodeOperators.findNextOperator cb 0) ∧
      Fair 3 (· ∈ [10, 11, 12]) (fun _ cb => NodeOperator.findNextNode [10, 11, 12] cb 0) := by
  have hsnapshot : (snapshot acceptAll sixOperators).toOption.map (·.nodeOperators.idToIdx.len) =
      some 6 := by decide +kernel
  obtain ⟨view, hview, hlen⟩ := Option.map_eq_some_iff.mp hsnapshot
  rw [toOption_eq_some] at hview
  obtain ⟨version, hbuilt⟩ := View.tryFromSc_eq_ok.mp hview
  have hcons := (NodeOperators.fromSlots_ok hbuilt.nodeOperators).2
  have hfair := findNext_fair_iff hcons (by omega)
    (show 0 < [10, 11, 12].length ∧ [10, 11, 12].length ≤ 256 by decide) 0
  rw [hlen] at hfair
  exact ⟨view, hview, hfair.1.mpr (.inl (by decide)), hfair.2.mpr (.inl (by decide))⟩

/-- The first search after the start calls back for one of six operators twice and never for the
last one, and so it does with three nodes. -/
theorem findNext_misses :
    (∃ view operator, snapshot acceptAll sixOperators = .ok view ∧
      view.nodeOperators.getByIdx 5 = some operator ∧ operator.id = 6 ∧
      view.nodeOperators.findNextOperator (fun operator => if operator.id = 6 then some () else none)
        initialCounter = .ok (⟨none, [3, 0, 1, 2, 3, 4]⟩, 0)) ∧
    NodeOperator.findNextNode [10, 11, 12] (fun node => if node = 12 then some () else none)
      initialCounter = .ok (⟨none, [0, 0, 1]⟩, 0) := by
  constructor
  · have hsnapshot : ((snapshot acceptAll sixOperators).toOption.bind fun view =>
        (view.nodeOperators.getByIdx 5).bind fun operator =>
          (view.nodeOperators.findNextOperator
            (fun operator => if operator.id = 6 then some () else none) initialCounter).toOption.map
              fun search => (operator.id, search)) =
        some (6, ⟨none, [3, 0, 1, 2, 3, 4]⟩, 0) := by
      decide +kernel
    obtain ⟨view, hview, hrest⟩ := Option.bind_eq_some_iff.mp hsnapshot
    obtain ⟨operator, hoperator, hrest⟩ := Option.bind_eq_some_iff.mp hrest
    obtain ⟨search, hsearch, heq⟩ := Option.map_eq_some_iff.mp hrest
    obtain ⟨hid, rfl⟩ := Prod.mk.inj heq
    exact ⟨view, operator, toOption_eq_some.mp hview, hoperator, hid, toOption_eq_some.mp hsearch⟩
  · exact toOption_eq_some.mp (by decide +kernel)

end Cluster
end Wcn
