import Wcn.Client.Retries
import Wcn.Cluster.LoadBalancing
import Wcn.Network.Isolation

/-!
# Wcn.Client.Selection

Which node a client sends an attempt to (`crates/client/src/{client,cluster,lib}.rs`). The client has a list
of the operators that it does not ignore, which a task renews after the view of the cluster has changed.
An attempt goes through the list from a place that a counter gives, to the first operator with a node
that is connected. If there is none, it goes to the next node of the whole cluster.

The view, the list and the connections may all change between an attempt's reading of the list and its
search, and the connections also between one node that the search looks at and the next.

* `visits` — the nodes that the search looks at, in this order, until one is connected.
* `Step` — attempts of a client, next to the tasks that renew what they read.
* `attempts_spread` — whom an attempt goes to, and how attempts are spread over the operators.
-/

namespace Wcn
namespace Client
namespace Selection

open Lib
open Cluster (NodeOperator NodeOperators SelectPanic)
open Cluster.OperatorData (Operator)
open Contract (Address)

variable {P N : Type}

/-! ## Connections -/

/-- Which connections to a node are open. -/
structure Connector where
  publicConn : Bool
  privateConn : Option Bool

namespace Connector

def isPrivateOpen (self : Connector) : Bool := self.privateConn.getD false

def isAnyOpen (self : Connector) : Bool := self.publicConn || self.isPrivateOpen

def isOpen (self : Connector) : Route → Bool
  | .any => self.isAnyOpen
  | .privateOnly => self.isPrivateOpen

end Connector

/-! ## The search -/

/-- The nodes that `new_corrupted` makes stand for those of an operator with corrupted data. -/
def nodes (corrupted : Address → List N) (operator : NodeOperator (Operator P N)) : List N :=
  operator.data.elim (corrupted operator.id) (·.nodes)

/-- The nodes of an operator, shuffled. None if it is not in the view any more. -/
def visitsOf (corrupted : Address → List N) (operators : NodeOperators (Operator P N))
    (shuffle : Address → List N → List N) (id : Address) : List (Address × N) :=
  match operators.get id with
  | none => []
  | some operator => (shuffle id (nodes corrupted operator)).map fun node => (id, node)

/-- The nodes that `find_node` calls its callback with, until this returns something. -/
def visits (corrupted : Address → List N) (operatorIds : List Address) (nextOperator : UInt64)
    (operators : NodeOperators (Operator P N)) (shuffle : Address → List N → List N) :
    List (Address × N) :=
  let (left, right) := operatorIds.splitAt (nextOperator.toNat % operatorIds.length)
  (right ++ left).flatMap (visitsOf corrupted operators shuffle)

/-- `next_node` of the cluster; `counter` and `nodeCounter` are the readings of its counters. -/
def nextNode (corrupted : Address → List N) (operators : NodeOperators (Operator P N))
    (counter nodeCounter : UInt64) : Except SelectPanic (Address × N) := do
  let (operator, _) ← operators.next counter
  let nodes := nodes corrupted operator
  let node ← Cluster.NodeOperator.nodeAt nodes (nodeCounter.toNat % nodes.length)
  .ok (operator.id, node)

/-- An attempt that has read the list. -/
structure Pending where
  route : Route
  operatorIds : List Address
  /-- How many had read the counter before. -/
  number : Nat

/-- A node that a search has looked at, and the connections at that time. -/
structure Look (N : Type) where
  visit : Address × N
  connectors : N → Connector

/-- An attempt that is looking for a node, in a view. -/
structure Search (P N : Type) extends Pending where
  operators : NodeOperators (Operator P N)
  /-- The connections at all times since it began, the latest first. -/
  met : List (N → Connector)
  /-- What it has passed over. -/
  looked : List (Look N)
  rest : List (Address × N)

/-- An attempt, with what its search met. -/
structure Attempt (P N : Type) extends Search P N where
  /-- The search has found a node. -/
  found : Bool
  /-- The connections when the search ended. -/
  connectors : N → Connector
  target : Address × N

/-! ## Attempts next to renewals -/

structure State (P N : Type) where
  /-- The operators of the current view. -/
  view : NodeOperators (Operator P N)
  connectors : N → Connector
  operators : List Address
  /-- How often the counter was read; its value wraps around. -/
  begun : Nat
  pending : List Pending
  searching : List (Search P N)
  attempts : List (Attempt P N)

/-- What a client is made with, and the views that it can have. -/
structure Setup (P N : Type) where
  ignored : Address → Bool
  corrupted : Address → List N
  views : NodeOperators (Operator P N) → Prop

def State.start (view : NodeOperators (Operator P N)) (connectors : N → Connector) : State P N :=
  ⟨view, connectors, [], 0, [], [], []⟩

/-- The ids of the operators that are not ignored. -/
def Setup.newOperators (setup : Setup P N) (view : NodeOperators (Operator P N)) : List Address :=
  ((view.slots.filterMap id).map NodeOperator.id).filter fun id => !setup.ignored id

inductive Step (setup : Setup P N) : State P N → State P N → Prop where
  | view (s : State P N) {view : NodeOperators (Operator P N)} (h : setup.views view) :
    Step setup s { s with view }
  /-- Connections are opened and closed. -/
  | connections (s : State P N) (connectors : N → Connector) :
    Step setup s
      { s with
        connectors
        searching := s.searching.map fun search => { search with met := connectors :: search.met } }
  /-- The task renews the list, from a view that it has read before. -/
  | renew (s : State P N) {view : NodeOperators (Operator P N)} (h : setup.views view) :
    Step setup s { s with operators := setup.newOperators view }
  /-- An attempt reads the list, and the counter if the list is not empty. -/
  | load (s : State P N) (route : Route) :
    Step setup s
      { s with
        begun := if s.operators.isEmpty then s.begun else s.begun + 1
        pending := ⟨route, s.operators, s.begun⟩ :: s.pending }
  /-- It reads the view. -/
  | search (s : State P N) {before after : List Pending} {attempt : Pending}
      (h : s.pending = before ++ attempt :: after) {shuffle : Address → List N → List N}
      (hshuffle : ∀ id nodes, (shuffle id nodes).Perm nodes) :
    Step setup s
      { s with
        pending := before ++ after
        searching := ⟨attempt, s.view, [s.connectors], [],
          visits setup.corrupted attempt.operatorIds (.ofNat attempt.number) s.view shuffle⟩ ::
            s.searching }
  /-- The next node is connected. -/
  | found (s : State P N) {before after : List (Search P N)} {search : Search P N}
      (h : s.searching = before ++ search :: after) {visit : Address × N} {rest : List (Address × N)}
      (hrest : search.rest = visit :: rest)
      (hopen : (s.connectors visit.2).isOpen search.route = true) :
    Step setup s
      { s with
        searching := before ++ after
        attempts := ⟨search, true, s.connectors, visit⟩ :: s.attempts }
  /-- The next node is not connected. -/
  | skip (s : State P N) {before after : List (Search P N)} {search : Search P N}
      (h : s.searching = before ++ search :: after) {visit : Address × N} {rest : List (Address × N)}
      (hrest : search.rest = visit :: rest)
      (hclosed : (s.connectors visit.2).isOpen search.route = false) :
    Step setup s
      { s with
        searching := before ++
          { search with looked := search.looked ++ [⟨visit, s.connectors⟩], rest } :: after }
  /-- There is no next node. The view may be another one when the next node of the cluster is asked
  for. -/
  | fallback (s : State P N) {before after : List (Search P N)} {search : Search P N}
      (h : s.searching = before ++ search :: after) (hrest : search.rest = [])
      {view : NodeOperators (Operator P N)} (hview : setup.views view) {counter nodeCounter : UInt64}
      {target : Address × N} (htarget : nextNode setup.corrupted view counter nodeCounter = .ok target) :
    Step setup s
      { s with
        searching := before ++ after
        attempts := ⟨search, false, s.connectors, target⟩ :: s.attempts }

/-! ## What a search looks at -/

section Visits

variable {corrupted : Address → List N} {operatorIds : List Address} {nextOperator : UInt64}
  {operators : NodeOperators (Operator P N)} {shuffle : Address → List N → List N}

/-- The operator is in the view, with this node. -/
def Hosts (corrupted : Address → List N) (operators : NodeOperators (Operator P N)) (id : Address)
    (node : N) : Prop :=
  ∃ operator, operators.get id = some operator ∧ node ∈ nodes corrupted operator

theorem mem_visitsOf (hshuffle : ∀ id nodes, (shuffle id nodes).Perm nodes) {id : Address}
    {visit : Address × N} :
    visit ∈ visitsOf corrupted operators shuffle id ↔
      visit.1 = id ∧ Hosts corrupted operators id visit.2 := by
  obtain ⟨id', node⟩ := visit
  rw [visitsOf, Hosts]
  cases operators.get id with
  | none => simp
  | some operator => simp [(hshuffle id _).mem_iff, eq_comm, and_comm]

theorem visits_eq :
    visits corrupted operatorIds nextOperator operators shuffle =
      (operatorIds.drop (nextOperator.toNat % operatorIds.length) ++
        operatorIds.take (nextOperator.toNat % operatorIds.length)).flatMap
          (visitsOf corrupted operators shuffle) := by
  rw [visits, List.splitAt_eq]

theorem mem_visits (hshuffle : ∀ id nodes, (shuffle id nodes).Perm nodes) {visit : Address × N} :
    visit ∈ visits corrupted operatorIds nextOperator operators shuffle ↔
      visit.1 ∈ operatorIds ∧ Hosts corrupted operators visit.1 visit.2 := by
  have hrotated : ∀ (id : Address) (k : Nat),
      id ∈ operatorIds.drop k ++ operatorIds.take k ↔ id ∈ operatorIds := fun id k => by
    rw [List.mem_append, Or.comm, ← List.mem_append, List.take_append_drop]
  simp only [visits_eq, List.mem_flatMap, hrotated, mem_visitsOf hshuffle]
  constructor
  · rintro ⟨id, hid, rfl, hhosts⟩
    exact ⟨hid, hhosts⟩
  · rintro ⟨hid, hhosts⟩
    exact ⟨_, hid, rfl, hhosts⟩

/-- The operator whose turn it is comes first. -/
theorem visitsOf_prefix {id : Address}
    (hid : operatorIds[nextOperator.toNat % operatorIds.length]? = some id) :
    visitsOf corrupted operators shuffle id <+:
      visits corrupted operatorIds nextOperator operators shuffle := by
  obtain ⟨hlt, rfl⟩ := List.getElem?_eq_some_iff.mp hid
  rw [visits_eq, List.drop_eq_getElem_cons hlt, List.cons_append, List.flatMap_cons]
  exact List.prefix_append _ _

end Visits

/-! ## Whole runs -/

variable {setup : Setup P N}

/-- A list that was made from a view. -/
structure Listed (setup : Setup P N) (operatorIds : List Address) : Prop where
  nodup : operatorIds.Nodup
  ignored : ∀ id ∈ operatorIds, setup.ignored id = false

namespace Search

/-- The operator has a node that was connected all the time. -/
def OpenThroughout (setup : Setup P N) (x : Search P N) (id : Address) : Prop :=
  ∃ node, Hosts setup.corrupted x.operators id node ∧
    ∀ connectors ∈ x.met, (connectors node).isOpen x.route = true

/-- Where the search begins. -/
def turn (x : Search P N) : Option Address :=
  x.operatorIds[(UInt64.ofNat x.number).toNat % x.operatorIds.length]?

/-- What was looked at is the front of the visits, and was not connected then. -/
structure Good (setup : Setup P N) (x : Search P N) : Prop where
  order : ∃ shuffle : Address → List N → List N, (∀ id nodes, (shuffle id nodes).Perm nodes) ∧
    visits setup.corrupted x.operatorIds (.ofNat x.number) x.operators shuffle =
      x.looked.map Look.visit ++ x.rest
  looked : ∀ look ∈ x.looked, look.connectors ∈ x.met ∧
    (look.connectors look.visit.2).isOpen x.route = false

variable {x : Search P N}

theorem Good.not_open (h : x.Good setup) {visit : Address × N}
    (hvisit : visit ∈ x.looked.map Look.visit)
    (hopen : ∀ connectors ∈ x.met, (connectors visit.2).isOpen x.route = true) : False := by
  obtain ⟨look, hlook, rfl⟩ := List.mem_map.mp hvisit
  obtain ⟨hmem, hclosed⟩ := h.looked look hlook
  rw [hopen look.connectors hmem] at hclosed
  cases hclosed

theorem Good.found (h : x.Good setup) {visit : Address × N} {rest : List (Address × N)}
    (hrest : x.rest = visit :: rest) :
    visit.1 ∈ x.operatorIds ∧ Hosts setup.corrupted x.operators visit.1 visit.2 := by
  obtain ⟨shuffle, hshuffle, horder⟩ := h.order
  have hvisit : visit ∈ x.looked.map Look.visit ++ x.rest := by
    rw [hrest]
    exact List.mem_append_right _ List.mem_cons_self
  rw [← horder] at hvisit
  exact (mem_visits hshuffle).mp hvisit

/-- Both the visits of the operator whose turn it is and those up to the node that was found are at the
front. If the former were the shorter ones, the connected node would have been passed over. -/
theorem Good.turn (h : x.Good setup) {visit : Address × N} {rest : List (Address × N)}
    (hrest : x.rest = visit :: rest) {id : Address} (hturn : x.turn = some id)
    (hopen : x.OpenThroughout setup id) : visit.1 = id := by
  obtain ⟨shuffle, hshuffle, horder⟩ := h.order
  obtain ⟨node, hhosts, hopen⟩ := hopen
  have hfirst : visitsOf setup.corrupted x.operators shuffle id <+:
      x.looked.map Look.visit ++ [visit] ++ rest := by
    rw [List.append_assoc, List.singleton_append, ← hrest, ← horder]
    exact visitsOf_prefix hturn
  have hnode : (id, node) ∈ visitsOf setup.corrupted x.operators shuffle id :=
    (mem_visitsOf hshuffle).mpr ⟨rfl, hhosts⟩
  have hnot : ¬ visitsOf setup.corrupted x.operators shuffle id <+: x.looked.map Look.visit :=
    fun hstarts => h.not_open (hstarts.subset hnode) hopen
  have hvisit : visit ∈ visitsOf setup.corrupted x.operators shuffle id := by
    rcases List.prefix_or_prefix_of_prefix hfirst (List.prefix_append _ rest) with hstarts | hstarts
    · rcases List.prefix_concat_iff.mp hstarts with heq | hstarts
      · rw [heq]
        exact List.mem_append_right _ List.mem_cons_self
      · exact absurd hstarts hnot
    · exact hstarts.subset (List.mem_append_right _ List.mem_cons_self)
  exact ((mem_visitsOf hshuffle).mp hvisit).1

theorem Good.fallback (h : x.Good setup) (hrest : x.rest = []) {id : Address}
    (hid : id ∈ x.operatorIds) {node : N} (hhosts : Hosts setup.corrupted x.operators id node) :
    (id, node) ∈ x.looked.map Look.visit := by
  obtain ⟨shuffle, hshuffle, horder⟩ := h.order
  rw [hrest, List.append_nil] at horder
  rw [← horder]
  exact (mem_visits hshuffle).mpr ⟨hid, hhosts⟩

end Search

structure Searched (setup : Setup P N) (a : Attempt P N) : Prop where
  good : a.toSearch.Good setup
  found : a.found = true → a.target.1 ∈ a.operatorIds ∧
    Hosts setup.corrupted a.operators a.target.1 a.target.2 ∧
    (a.connectors a.target.2).isOpen a.route = true
  turn : a.found = true → ∀ id, a.turn = some id → a.OpenThroughout setup id → a.target.1 = id
  fallback : a.found = false → a.rest = []

structure State.Good (setup : Setup P N) (s : State P N) : Prop where
  operators : Listed setup s.operators
  pending : ∀ p ∈ s.pending, Listed setup p.operatorIds ∧ (p.operatorIds ≠ [] → p.number < s.begun)
  searching : ∀ x ∈ s.searching, Listed setup x.operatorIds ∧
    (x.operatorIds ≠ [] → x.number < s.begun) ∧ x.Good setup ∧ s.connectors ∈ x.met
  attempts : ∀ a ∈ s.attempts, Listed setup a.operatorIds ∧
    (a.operatorIds ≠ [] → a.number < s.begun) ∧ Searched setup a

/-- No two slots hold the same operator. -/
theorem nodup_ids {view : NodeOperators (Operator P N)} (hcons : view.Consistent)
    (hlen : view.slots.length ≤ 256) : ((view.slots.filterMap id).map NodeOperator.id).Nodup := by
  rw [List.Nodup, List.pairwise_map, List.pairwise_filterMap, List.pairwise_iff_getElem]
  intro i j hi hj hlt operator hoperator operator' hoperator' heq
  have hidx {k : Nat} (hk : k < view.slots.length) {operator : NodeOperator (Operator P N)}
      (h : view.slots[k] = some operator) :
      view.getIdx operator.id = some ⟨k, hk.trans_le hlen⟩ := by
    refine (hcons _ _).mpr ⟨operator, ?_, rfl⟩
    rw [NodeOperators.getByIdx, List.getElem?_eq_getElem hk, h]
    rfl
  have hsame := (hidx hi hoperator).symm.trans ((congrArg _ heq).trans (hidx hj hoperator'))
  exact hlt.ne (congrArg Fin.val (Option.some.inj hsame))

theorem listed_newOperators {view : NodeOperators (Operator P N)} (hcons : view.Consistent)
    (hlen : view.slots.length ≤ 256) : Listed setup (setup.newOperators view) where
  nodup := (nodup_ids hcons hlen).filter _
  ignored id hid := by simpa using (List.mem_filter.mp hid).2

theorem good_invariant
    (hviews : ∀ view, setup.views view → view.Consistent ∧ view.slots.length ≤ 256) :
    Invariant (Step setup) (State.Good setup) := by
  intro s s' h hstep
  have hrest {α : Type} {all before after : List α} {x : α} (hall : all = before ++ x :: after) :
      x ∈ all ∧ ∀ y ∈ before ++ after, y ∈ all := by
    rw [hall]
    refine ⟨List.mem_append_right _ List.mem_cons_self, fun y hy => ?_⟩
    rw [List.mem_append, List.mem_cons]
    exact (List.mem_append.mp hy).imp_right .inr
  cases hstep with
  | view hview => exact ⟨h.operators, h.pending, h.searching, h.attempts⟩
  | connections connectors =>
    refine ⟨h.operators, h.pending, fun x hx => ?_, h.attempts⟩
    obtain ⟨x, hmem, rfl⟩ := List.mem_map.mp hx
    obtain ⟨hlisted, hnumber, ⟨horder, hlooked⟩, -⟩ := h.searching x hmem
    refine ⟨hlisted, hnumber, ⟨horder, fun look hlook => ?_⟩, List.mem_cons_self⟩
    obtain ⟨hmem, hclosed⟩ := hlooked look hlook
    exact ⟨List.mem_cons_of_mem _ hmem, hclosed⟩
  | renew hview =>
    exact ⟨listed_newOperators (hviews _ hview).1 (hviews _ hview).2, h.pending, h.searching, h.attempts⟩
  | load route =>
    have hbegun : s.begun ≤ if s.operators.isEmpty then s.begun else s.begun + 1 := by
      split <;> omega
    refine ⟨h.operators, fun p hp => ?_, fun x hx => ?_, fun a ha => ?_⟩
    · rcases List.mem_cons.mp hp with rfl | hp
      · refine ⟨h.operators, fun hne => ?_⟩
        dsimp only at hne ⊢
        rw [if_neg (by simpa using hne)]
        exact Nat.lt_succ_self _
      · exact ⟨(h.pending p hp).1, fun hne => ((h.pending p hp).2 hne).trans_le hbegun⟩
    · obtain ⟨hlisted, hnumber, hgood⟩ := h.searching x hx
      exact ⟨hlisted, fun hne => (hnumber hne).trans_le hbegun, hgood⟩
    · obtain ⟨hlisted, hnumber, hsearched⟩ := h.attempts a ha
      exact ⟨hlisted, fun hne => (hnumber hne).trans_le hbegun, hsearched⟩
  | search hpending hshuffle =>
    obtain ⟨hmem, hothers⟩ := hrest hpending
    refine ⟨h.operators, fun p hp => h.pending p (hothers p hp), fun x hx => ?_, h.attempts⟩
    rcases List.mem_cons.mp hx with rfl | hx
    · exact ⟨(h.pending _ hmem).1, (h.pending _ hmem).2,
        ⟨⟨_, hshuffle, rfl⟩, fun _ hlook => absurd hlook List.not_mem_nil⟩, List.mem_cons_self⟩
    · exact h.searching x hx
  | @found before after x hsearching visit rest hnext hopen =>
    obtain ⟨hmem, hothers⟩ := hrest hsearching
    obtain ⟨hlisted, hnumber, hgood, -⟩ := h.searching x hmem
    refine ⟨h.operators, h.pending, fun y hy => h.searching y (hothers y hy), fun a ha => ?_⟩
    rcases List.mem_cons.mp ha with rfl | ha
    · obtain ⟨hid, hhosts⟩ := hgood.found hnext
      refine ⟨hlisted, hnumber, hgood, fun _ => ⟨hid, hhosts, hopen⟩,
        fun _ id hturn => hgood.turn hnext hturn, fun hfound => ?_⟩
      cases hfound
    · exact h.attempts a ha
  | @skip before after x hsearching visit rest hnext hclosed =>
    obtain ⟨hmem, hothers⟩ := hrest hsearching
    obtain ⟨hlisted, hnumber, ⟨⟨shuffle, hshuffle, horder⟩, hlooked⟩, hconnectors⟩ :=
      h.searching x hmem
    refine ⟨h.operators, h.pending, fun y hy => ?_, h.attempts⟩
    rcases List.mem_append.mp hy with hy | hy
    · exact h.searching y (hothers y (List.mem_append_left _ hy))
    · rcases List.mem_cons.mp hy with rfl | hy
      · refine ⟨hlisted, hnumber, ⟨⟨shuffle, hshuffle, ?_⟩, fun look hlook => ?_⟩, hconnectors⟩
        · rw [horder, hnext, List.map_append, List.append_assoc, List.map_singleton,
            List.singleton_append]
        · rcases List.mem_append.mp hlook with hlook | hlook
          · exact hlooked look hlook
          · rw [List.mem_singleton.mp hlook]
            exact ⟨hconnectors, hclosed⟩
      · exact h.searching y (hothers y (List.mem_append_right _ hy))
  | @fallback before after x hsearching hnext =>
    obtain ⟨hmem, hothers⟩ := hrest hsearching
    obtain ⟨hlisted, hnumber, hgood, -⟩ := h.searching x hmem
    refine ⟨h.operators, h.pending, fun y hy => h.searching y (hothers y hy), fun a ha => ?_⟩
    rcases List.mem_cons.mp ha with rfl | ha
    · refine ⟨hlisted, hnumber, hgood, fun hfound => ?_, fun hfound => ?_, fun _ => hnext⟩
      · cases hfound
      · cases hfound
    · exact h.attempts a ha

theorem good_start (setup : Setup P N) (view : NodeOperators (Operator P N))
    (connectors : N → Connector) : State.Good setup (.start view connectors) :=
  ⟨⟨List.nodup_nil, fun _ h => absurd h List.not_mem_nil⟩, fun _ h => absurd h List.not_mem_nil,
    fun _ h => absurd h List.not_mem_nil, fun _ h => absurd h List.not_mem_nil⟩

/-- With a connected node at every operator, an attempt goes to the one whose turn it is. -/
theorem Searched.getElem?_number {a : Attempt P N} (h : Searched setup a)
    (hnumber : a.number < 2 ^ 64) (hne : a.operatorIds ≠ [])
    (hopen : ∀ id ∈ a.operatorIds, a.OpenThroughout setup id) :
    a.operatorIds[a.number % a.operatorIds.length]? = some a.target.1 := by
  have hlt : a.number % a.operatorIds.length < a.operatorIds.length :=
    Nat.mod_lt _ (List.length_pos_iff.mpr hne)
  have hturn : a.turn = some (a.operatorIds.get ⟨_, hlt⟩) := by
    rw [Search.turn, UInt64.toNat_ofNat', Nat.mod_eq_of_lt hnumber, List.getElem?_eq_getElem hlt]
    rfl
  have hsteady := hopen _ (List.get_mem a.operatorIds ⟨_, hlt⟩)
  have hfound : a.found = true := by
    by_contra hnot
    obtain ⟨node, hhosts, hsteady⟩ := hsteady
    have hrest := h.fallback (Bool.eq_false_iff.mpr hnot)
    exact h.good.not_open (h.good.fallback hrest (List.get_mem ..) hhosts) hsteady
  rw [h.turn hfound _ hturn hsteady, List.getElem?_eq_getElem hlt]
  rfl

/-- An attempt that found a node goes to one of an operator that is not ignored, and it was connected
when the search looked at it. An attempt falls back to the whole cluster only after every node of every
operator of its list was looked at and was not connected then. Of two attempts with the same list, of
which every operator had a node that was connected throughout both searches, the later one goes to a
different operator unless it is at least as many attempts later as there are operators. -/
theorem attempts_spread (setup : Setup P N)
    (hviews : ∀ view, setup.views view → view.Consistent ∧ view.slots.length ≤ 256)
    {view : NodeOperators (Operator P N)} (connectors : N → Connector)
    {s : State P N} (hrun : Run (Step setup) (.start view connectors) s) :
    (∀ a ∈ s.attempts, a.found = true → setup.ignored a.target.1 = false ∧
      Hosts setup.corrupted a.operators a.target.1 a.target.2 ∧
      (a.connectors a.target.2).isOpen a.route = true) ∧
    (∀ a ∈ s.attempts, a.found = false → ∀ id ∈ a.operatorIds, ∀ node,
      Hosts setup.corrupted a.operators id node → ∃ look ∈ a.looked, look.visit = (id, node) ∧
        (look.connectors node).isOpen a.route = false) ∧
    (s.begun ≤ 2 ^ 64 → ∀ a ∈ s.attempts, ∀ b ∈ s.attempts, a.operatorIds = b.operatorIds →
      (∀ id ∈ a.operatorIds, a.OpenThroughout setup id ∧ b.OpenThroughout setup id) →
      a.number < b.number → b.number < a.number + a.operatorIds.length →
      a.target.1 ≠ b.target.1) := by
  have h := (good_invariant hviews).run hrun (good_start setup view connectors)
  refine ⟨fun a ha hfound => ?_, fun a ha hfound id hid node hhosts => ?_,
    fun hbegun a ha b hb hids hopen hlt hlt' => ?_⟩
  · obtain ⟨hlisted, _, hsearched⟩ := h.attempts a ha
    obtain ⟨hmem, hhosts, hopen⟩ := hsearched.found hfound
    exact ⟨hlisted.ignored _ hmem, hhosts, hopen⟩
  · obtain ⟨_, _, hsearched⟩ := h.attempts a ha
    have hlooked := hsearched.good.fallback (hsearched.fallback hfound) hid hhosts
    obtain ⟨look, hlook, hvisit⟩ := List.mem_map.mp hlooked
    have hclosed := (hsearched.good.looked look hlook).2
    rw [hvisit] at hclosed
    exact ⟨look, hlook, hvisit, hclosed⟩
  · obtain ⟨hlisted, hnumber, hsearched⟩ := h.attempts a ha
    obtain ⟨_, hnumber', hsearched'⟩ := h.attempts b hb
    rw [← hids] at hnumber'
    have hne : a.operatorIds ≠ [] := by
      rintro hnil
      rw [hnil] at hlt'
      exact absurd hlt' (Nat.not_lt.mpr hlt.le)
    have hturn := hsearched.getElem?_number ((hnumber hne).trans_le hbegun) hne
      fun id hid => (hopen id hid).1
    have hturn' := hsearched'.getElem?_number ((hnumber' hne).trans_le hbegun) (hids ▸ hne)
      fun id hid => (hopen id (hids ▸ hid)).2
    rw [← hids] at hturn'
    intro heq
    have hmod : a.number % a.operatorIds.length = b.number % a.operatorIds.length :=
      (List.getElem?_inj (Nat.mod_lt _ (List.length_pos_iff.mpr hne)) hlisted.nodup).mp
        (hturn.trans ((congrArg some heq).trans hturn'.symm))
    have hdvd := (Nat.modEq_iff_dvd' hlt.le).mp hmod
    have hle := Nat.le_of_dvd (Nat.sub_pos_of_lt hlt) hdvd
    omega

/-- Five operators with the nodes 0 and 1 each. -/
def fiveSlots : List (Option (NodeOperator (Operator UInt8 Nat))) :=
  [1, 2, 3, 4, 5].map fun id => some ⟨id, some ⟨id, ⟨"operator"⟩, [], [0, 1], by decide⟩⟩

def five : NodeOperators (Operator UInt8 Nat) :=
  (NodeOperators.fromSlots fiveSlots).toOption.getD ⟨.empty, []⟩

theorem fromSlots_five : NodeOperators.fromSlots fiveSlots = .ok five := by
  have hsome : (NodeOperators.fromSlots fiveSlots).toOption.isSome = true := by decide +kernel
  obtain ⟨view, hview⟩ := Option.isSome_iff_exists.mp hsome
  rw [five, hview, Option.getD_some, toOption_eq_some.mp hview]

/-- The last of them is ignored. -/
def ignoreLast : Setup UInt8 Nat := ⟨(· = 5), fun _ => [], (· = five)⟩

def allOpen (_ : Nat) : Connector := ⟨true, none⟩

/-- The search of the first attempts, with the nodes in the order of the view. -/
def searchOf (number : Nat) : Search UInt8 Nat :=
  ⟨⟨.any, ignoreLast.newOperators five, number⟩, five, [allOpen], [],
    visits ignoreLast.corrupted (ignoreLast.newOperators five) (.ofNat number) five fun _ nodes => nodes⟩

def first : Attempt UInt8 Nat := ⟨searchOf 0, true, allOpen, (1, 0)⟩

def second : Attempt UInt8 Nat := ⟨searchOf 1, true, allOpen, (2, 0)⟩

/-- Two attempts read the list before either of them searches. -/
theorem run_attempts :
    Run (Step ignoreLast) (.start five allOpen)
      ⟨five, allOpen, ignoreLast.newOperators five, 2, [], [], [second, first]⟩ := by
  let ids := ignoreLast.newOperators five
  have hrenew : Step ignoreLast (.start five allOpen) ⟨five, allOpen, ids, 0, [], [], []⟩ :=
    .renew _ rfl
  have hload : Step ignoreLast ⟨five, allOpen, ids, 0, [], [], []⟩ _ := .load _ .any
  rw [if_neg (by decide +kernel)] at hload
  have hload' : Step ignoreLast ⟨five, allOpen, ids, 1, [⟨.any, ids, 0⟩], [], []⟩ _ := .load _ .any
  rw [if_neg (by decide +kernel)] at hload'
  have hsearch : Step ignoreLast ⟨five, allOpen, ids, 2, [⟨.any, ids, 1⟩, ⟨.any, ids, 0⟩], [], []⟩
      ⟨five, allOpen, ids, 2, [⟨.any, ids, 1⟩], [searchOf 0], []⟩ :=
    .search _ (show _ = [⟨.any, ids, 1⟩] ++ ⟨.any, ids, 0⟩ :: [] from rfl) fun _ _ => .refl _
  have hnext : (searchOf 0).rest = (1, 0) :: (searchOf 0).rest.tail := by decide +kernel
  have hfound : Step ignoreLast ⟨five, allOpen, ids, 2, [⟨.any, ids, 1⟩], [searchOf 0], []⟩
      ⟨five, allOpen, ids, 2, [⟨.any, ids, 1⟩], [], [first]⟩ :=
    .found _ (show _ = [] ++ searchOf 0 :: [] from rfl) hnext rfl
  have hsearch' : Step ignoreLast ⟨five, allOpen, ids, 2, [⟨.any, ids, 1⟩], [], [first]⟩
      ⟨five, allOpen, ids, 2, [], [searchOf 1], [first]⟩ :=
    .search _ (show _ = [] ++ ⟨.any, ids, 1⟩ :: [] from rfl) fun _ _ => .refl _
  have hnext' : (searchOf 1).rest = (2, 0) :: (searchOf 1).rest.tail := by decide +kernel
  have hfound' : Step ignoreLast ⟨five, allOpen, ids, 2, [], [searchOf 1], [first]⟩
      ⟨five, allOpen, ids, 2, [], [], [second, first]⟩ :=
    .found _ (show _ = [] ++ searchOf 1 :: [] from rfl) hnext' rfl
  exact ((((((Relation.ReflTransGen.single hrenew).tail hload).tail hload').tail hsearch).tail
    hfound).tail hsearch').tail hfound'

theorem openThroughout_searchOf (number : Nat) :
    ∀ id ∈ ignoreLast.newOperators five, (searchOf number).OpenThroughout ignoreLast id := by
  have hhosts : ((ignoreLast.newOperators five).all fun id =>
      (five.get id).any fun operator => (nodes ignoreLast.corrupted operator).contains 0) = true := by
    decide +kernel
  intro id hid
  have hany := List.all_eq_true.mp hhosts id hid
  cases hoperator : five.get id with
  | none =>
    rw [hoperator] at hany
    cases hany
  | some operator =>
    rw [hoperator, Option.any_some, List.contains_iff_mem] at hany
    refine ⟨0, ⟨operator, hoperator, hany⟩, fun connectors hmem => ?_⟩
    rw [List.mem_singleton.mp hmem]
    rfl

theorem attempts_spread_two :
    (first.found = true ∧ second.found = true) ∧ first.target.1 ≠ second.target.1 := by
  have hfive := NodeOperators.fromSlots_ok fromSlots_five
  have hviews : ∀ view, ignoreLast.views view → view.Consistent ∧ view.slots.length ≤ 256 := by
    rintro _ rfl
    exact ⟨hfive.2, by decide +kernel⟩
  refine ⟨⟨rfl, rfl⟩, ?_⟩
  exact (attempts_spread ignoreLast hviews allOpen run_attempts).2.2 (by decide) first (by simp) second
    (by simp) rfl (fun id hid => ⟨openThroughout_searchOf 0 id hid, openThroughout_searchOf 1 id hid⟩)
    (by decide) (by decide +kernel)

end Selection
end Client
end Wcn
