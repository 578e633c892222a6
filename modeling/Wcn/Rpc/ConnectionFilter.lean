import Mathlib
import Wcn.Lib.Runs

/-!
# Wcn.Rpc.ConnectionFilter

How a server bounds what it takes on: the connection filter (`crates/rpc/src/connection_filter.rs`), and
the permits of connections and RPCs (`crates/rpc/src/server.rs`).

* There is a semaphore for all connections, one for all RPCs, and one per address, which is kept in
  a cache. The cache may forget an address at any time; a fresh semaphore is made for it then, next
  to the one that its connections still hold.
* A connection keeps its permits for as long as one of its RPCs runs, even if it is lost before.
* `Step` — connections and RPCs that come and go.
* `connections_limited` — the bounds hold in every reachable state, that of an address once for each
  time that it was forgotten; and no permit is ever lost.
-/

namespace Wcn
namespace Rpc

open Lib

variable {IP : Type} [DecidableEq IP]

namespace ConnectionFilter

structure Config where
  maxConnections : Nat
  maxConnectionsPerIp : Nat
  maxConnectionRatePerIp : Nat
  maxConcurrentRpcs : Nat

inductive RejectionReason where
  | globalSemaphore
  | localSemaphore
  | rateLimit
  | addressNotValidated
deriving DecidableEq

/-- Limiters are numbered in the order in which they are made. Semaphores are given by the permits that
are left. -/
structure Filter (IP : Type) where
  globalSemaphore : Nat
  /-- The cache. -/
  localLimiters : IP → Option Nat
  /-- The address that each limiter was made for. -/
  made : List IP
  localSemaphore : Nat → Nat
  maxConnectionsPerIp : Nat

/-- The limiter that the local permit is of. -/
structure Permit where
  limiter : Nat
deriving DecidableEq

structure Incoming (IP : Type) where
  remoteAddress : IP
  remoteAddressValidated : Bool

namespace Filter

/-- `none` is the error about the connection rate. -/
def new (cfg : Config) : Option (Filter IP) :=
  if cfg.maxConnectionRatePerIp = 0 then none
  else some ⟨cfg.maxConnections, fun _ => none, [], fun _ => 0, cfg.maxConnectionsPerIp⟩

/-- The limiter of an address, which is made if it is not in the cache. -/
def limiters (self : Filter IP) (addr : IP) : Nat × Filter IP :=
  match self.localLimiters addr with
  | some limiter => (limiter, self)
  | none =>
    let limiter := self.made.length
    (limiter,
      { self with
        localLimiters := Function.update self.localLimiters addr (some limiter)
        made := self.made ++ [addr]
        localSemaphore := Function.update self.localSemaphore limiter self.maxConnectionsPerIp })

/-- The permits are taken. -/
def acquire (self : Filter IP) (limiter : Nat) : Filter IP :=
  { self with
    globalSemaphore := self.globalSemaphore - 1
    localSemaphore :=
      Function.update self.localSemaphore limiter (self.localSemaphore limiter - 1) }

/-- `withinRate` is the answer of the rate limiter. -/
def tryAcquirePermit (self : Filter IP) (incoming : Incoming IP) (withinRate : Bool) :
    Except RejectionReason Permit × Filter IP :=
  if !incoming.remoteAddressValidated then
    (.error .addressNotValidated, self)
  else
    let (limiter, self) := self.limiters incoming.remoteAddress
    if !withinRate then
      (.error .rateLimit, self)
    else if self.localSemaphore limiter = 0 then
      (.error .localSemaphore, self)
    else if self.globalSemaphore = 0 then
      -- the local permit is dropped again
      (.error .globalSemaphore, self)
    else
      (.ok ⟨limiter⟩, self.acquire limiter)

/-- The permit is dropped. -/
def release (self : Filter IP) (permit : Permit) : Filter IP :=
  { self with
    globalSemaphore := self.globalSemaphore + 1
    localSemaphore :=
      Function.update self.localSemaphore permit.limiter (self.localSemaphore permit.limiter + 1) }

/-- The cache forgets an address. -/
def evict (self : Filter IP) (addr : IP) : Filter IP :=
  { self with localLimiters := Function.update self.localLimiters addr none }

end Filter

/-- A connection that still has its permits. -/
structure InboundConnection (IP : Type) where
  remoteAddr : IP
  permit : Permit
  /-- The task of the connection runs, from the handshake on. -/
  handled : Bool
  /-- The RPCs that run. -/
  rpcs : Nat

structure Server (IP : Type) where
  filter : Filter IP
  rpcSemaphore : Nat
  connections : List (InboundConnection IP)
  /-- How often each address was forgotten. -/
  evictions : IP → Nat

/-- The server that `serve` starts. -/
def Server.start (cfg : Config) : Option (Server IP) :=
  (Filter.new cfg).map fun filter => ⟨filter, cfg.maxConcurrentRpcs, [], fun _ => 0⟩

inductive Step : Server IP → Server IP → Prop where
  /-- A connection gets a permit, and is handled. -/
  | accept (s : Server IP) {incoming : Incoming IP} {withinRate : Bool} {permit : Permit}
      (h : (s.filter.tryAcquirePermit incoming withinRate).1 = .ok permit) :
    Step s
      { s with
        filter := (s.filter.tryAcquirePermit incoming withinRate).2
        connections := ⟨incoming.remoteAddress, permit, true, 0⟩ :: s.connections }
  /-- A connection gets no permit. -/
  | reject (s : Server IP) {incoming : Incoming IP} {withinRate : Bool} {reason : RejectionReason}
      (h : (s.filter.tryAcquirePermit incoming withinRate).1 = .error reason) :
    Step s { s with filter := (s.filter.tryAcquirePermit incoming withinRate).2 }
  | evict (s : Server IP) {addr : IP} {limiter : Nat} (h : s.filter.localLimiters addr = some limiter) :
    Step s
      { s with
        filter := s.filter.evict addr
        evictions := Function.update s.evictions addr (s.evictions addr + 1) }
  /-- An RPC gets a permit; without one it is dropped, and nothing changes. -/
  | acceptRpc (s : Server IP) {conn : InboundConnection IP} {before after : List (InboundConnection IP)}
      (hconn : s.connections = before ++ conn :: after) (hhandled : conn.handled = true)
      (h : s.rpcSemaphore ≠ 0) :
    Step s
      { s with
        rpcSemaphore := s.rpcSemaphore - 1
        connections := before ++ { conn with rpcs := conn.rpcs + 1 } :: after }
  /-- An RPC ends, one way or another. -/
  | finishRpc (s : Server IP) {conn : InboundConnection IP} {before after : List (InboundConnection IP)}
      {rpcs : Nat} (hconn : s.connections = before ++ conn :: after) (hrpcs : conn.rpcs = rpcs + 1) :
    Step s
      { s with
        rpcSemaphore := s.rpcSemaphore + 1
        connections := before ++ { conn with rpcs } :: after }
  /-- The task of a connection ends. -/
  | finish (s : Server IP) {conn : InboundConnection IP} {before after : List (InboundConnection IP)}
      (hconn : s.connections = before ++ conn :: after) :
    Step s { s with connections := before ++ { conn with handled := false } :: after }
  /-- Nothing refers to a connection any more. -/
  | release (s : Server IP) {conn : InboundConnection IP} {before after : List (InboundConnection IP)}
      (hconn : s.connections = before ++ conn :: after) (hhandled : conn.handled = false)
      (hrpcs : conn.rpcs = 0) :
    Step s { s with filter := s.filter.release conn.permit, connections := before ++ after }

/-! ## No permit is lost -/

/-- Every permit of a semaphore is either available or held by a connection, and every connection holds
one of a limiter that was made for its address. -/
structure Server.Balanced (cfg : Config) (s : Server IP) : Prop where
  perIp : s.filter.maxConnectionsPerIp = cfg.maxConnectionsPerIp
  global : s.filter.globalSemaphore + s.connections.length = cfg.maxConnections
  rpcs : s.rpcSemaphore + (s.connections.map InboundConnection.rpcs).sum = cfg.maxConcurrentRpcs
  locals : ∀ limiter < s.filter.made.length, s.filter.localSemaphore limiter +
    s.connections.countP (·.permit.limiter = limiter) = cfg.maxConnectionsPerIp
  owner : ∀ conn ∈ s.connections, s.filter.made[conn.permit.limiter]? = some conn.remoteAddr
  cached : ∀ addr limiter, s.filter.localLimiters addr = some limiter →
    s.filter.made[limiter]? = some addr
  made : ∀ addr, s.filter.made.count addr =
    s.evictions addr + (s.filter.localLimiters addr).isSome.toNat

variable {cfg : Config} {s : Server IP}

theorem Filter.limiters_of_some {self : Filter IP} {addr : IP} {limiter : Nat}
    (h : self.localLimiters addr = some limiter) : self.limiters addr = (limiter, self) := by
  rw [limiters, h]

namespace Server.Balanced

/-- Looking up the limiter of an address loses nothing, and finds one that was made for it. -/
theorem limiters (h : s.Balanced cfg) (addr : IP) :
    Server.Balanced cfg { s with filter := (s.filter.limiters addr).2 } ∧
      (s.filter.limiters addr).2.made[(s.filter.limiters addr).1]? = some addr := by
  cases hcache : s.filter.localLimiters addr with
  | some limiter =>
    rw [Filter.limiters_of_some hcache]
    exact ⟨h, h.cached addr limiter hcache⟩
  | none =>
    rw [Filter.limiters, hcache]
    dsimp only
    have hkeep {limiter : Nat} {addr' : IP} (hmade : s.filter.made[limiter]? = some addr') :
        (s.filter.made ++ [addr])[limiter]? = some addr' := by
      rw [List.getElem?_append_left (List.getElem?_eq_some_iff.mp hmade).1, hmade]
    have hnew : s.connections.countP (·.permit.limiter = s.filter.made.length) = 0 := by
      refine List.countP_eq_zero.mpr fun conn hconn => ?_
      have hlt := (List.getElem?_eq_some_iff.mp (h.owner conn hconn)).1
      rw [decide_eq_true_iff]
      exact hlt.ne
    refine ⟨⟨h.perIp, h.global, h.rpcs, fun limiter hlt => ?_,
      fun conn hconn => hkeep (h.owner conn hconn), fun addr' limiter hcached => ?_,
      fun addr' => ?_⟩, by simp⟩
    · rw [List.length_append, List.length_singleton] at hlt
      dsimp only
      rcases Nat.lt_succ_iff_lt_or_eq.mp hlt with hlt | rfl
      · rw [Function.update_of_ne hlt.ne]
        exact h.locals limiter hlt
      · rw [Function.update_self, hnew]
        exact h.perIp
    · dsimp only at hcached
      by_cases haddr : addr' = addr
      · subst haddr
        rw [Function.update_self, Option.some.injEq] at hcached
        subst hcached
        simp
      · rw [Function.update_of_ne haddr] at hcached
        exact hkeep (h.cached addr' limiter hcached)
    · dsimp only
      by_cases haddr : addr' = addr
      · subst haddr
        have hmade := h.made addr'
        rw [hcache] at hmade
        rw [Function.update_self, List.count_append, List.count_singleton_self, hmade]
        rfl
      · rw [Function.update_of_ne haddr, List.count_append, h.made addr',
          List.count_singleton, if_neg (by simpa using Ne.symm haddr), Nat.add_zero]

/-- A connection takes a permit of a limiter of its address. -/
theorem acquire (h : s.Balanced cfg) {addr : IP} {limiter : Nat}
    (howner : s.filter.made[limiter]? = some addr) (hlocal : s.filter.localSemaphore limiter ≠ 0)
    (hglobal : s.filter.globalSemaphore ≠ 0) :
    Server.Balanced cfg
      { s with
        filter := s.filter.acquire limiter
        connections := ⟨addr, ⟨limiter⟩, true, 0⟩ :: s.connections } := by
  refine ⟨h.perIp, ?_, ?_, fun limiter' hlt => ?_, fun conn hconn => ?_, h.cached, h.made⟩
  · have hsum := h.global
    rw [List.length_cons]
    dsimp only [Filter.acquire]
    omega
  · rw [List.map_cons, List.sum_cons, Nat.zero_add]
    exact h.rpcs
  · have hsum := h.locals limiter' hlt
    dsimp only [Filter.acquire]
    rw [List.countP_cons]
    by_cases heq : limiter = limiter'
    · subst heq
      rw [Function.update_self, if_pos (by simp)]
      omega
    · rw [Function.update_of_ne (Ne.symm heq), if_neg (by simpa using heq)]
      exact hsum
  · rcases List.mem_cons.mp hconn with rfl | hconn
    · exact howner
    · exact h.owner conn hconn

/-- A connection gives back its permits. -/
theorem release (h : s.Balanced cfg) {conn : InboundConnection IP}
    {before after : List (InboundConnection IP)} (hconn : s.connections = before ++ conn :: after)
    (hrpcs : conn.rpcs = 0) :
    Server.Balanced cfg
      { s with filter := s.filter.release conn.permit, connections := before ++ after } := by
  have hmem {conn' : InboundConnection IP} (hmem : conn' ∈ before ++ after) : conn' ∈ s.connections := by
    rw [hconn, List.mem_append, List.mem_cons]
    exact (List.mem_append.mp hmem).imp_right .inr
  refine ⟨h.perIp, ?_, ?_, fun limiter hlt => ?_, fun conn' hconn' => h.owner conn' (hmem hconn'),
    h.cached, h.made⟩
  · have hsum := h.global
    rw [hconn, List.length_append, List.length_cons] at hsum
    rw [List.length_append]
    dsimp only [Filter.release]
    omega
  · have hsum := h.rpcs
    rw [hconn, List.map_append, List.map_cons, List.sum_append, List.sum_cons, hrpcs,
      Nat.zero_add] at hsum
    rw [List.map_append, List.sum_append]
    exact hsum
  · have hsum := h.locals limiter hlt
    rw [hconn, List.countP_append, List.countP_cons] at hsum
    rw [List.countP_append]
    dsimp only [Filter.release]
    by_cases heq : conn.permit.limiter = limiter
    · subst heq
      rw [if_pos (by simp)] at hsum
      rw [Function.update_self]
      omega
    · rw [if_neg (by simpa using heq)] at hsum
      rw [Function.update_of_ne (Ne.symm heq)]
      exact hsum

/-- A connection is replaced by one with the same permits. -/
theorem update (h : s.Balanced cfg) {conn : InboundConnection IP}
    {before after : List (InboundConnection IP)} (hconn : s.connections = before ++ conn :: after)
    (conn' : InboundConnection IP) (haddr : conn'.remoteAddr = conn.remoteAddr)
    (hpermit : conn'.permit = conn.permit) {rpcSemaphore : Nat}
    (hrpcs : rpcSemaphore + conn'.rpcs = s.rpcSemaphore + conn.rpcs) :
    Server.Balanced cfg
      { s with rpcSemaphore, connections := before ++ conn' :: after } := by
  refine ⟨h.perIp, ?_, ?_, fun limiter hlt => ?_, fun conn₁ hmem => ?_, h.cached, h.made⟩
  · have hsum := h.global
    rw [hconn, List.length_append, List.length_cons] at hsum
    rw [List.length_append, List.length_cons]
    exact hsum
  · have hsum := h.rpcs
    rw [hconn, List.map_append, List.map_cons, List.sum_append, List.sum_cons] at hsum
    rw [List.map_append, List.map_cons, List.sum_append, List.sum_cons]
    dsimp only
    omega
  · have hsum := h.locals limiter hlt
    rw [hconn, List.countP_append, List.countP_cons] at hsum
    rw [List.countP_append, List.countP_cons, hpermit]
    exact hsum
  · have hold (hmem : conn₁ ∈ before ∨ conn₁ ∈ after) : conn₁ ∈ s.connections := by
      rw [hconn, List.mem_append, List.mem_cons]
      exact hmem.imp_right .inr
    rw [List.mem_append, List.mem_cons] at hmem
    rcases hmem with hmem | rfl | hmem
    · exact h.owner conn₁ (hold (.inl hmem))
    · have howner := h.owner conn (by rw [hconn]; exact List.mem_append_right _ List.mem_cons_self)
      rw [haddr, hpermit]
      exact howner
    · exact h.owner conn₁ (hold (.inr hmem))

theorem evict (h : s.Balanced cfg) {addr : IP} {limiter : Nat}
    (hcached : s.filter.localLimiters addr = some limiter) :
    Server.Balanced cfg
      { s with
        filter := s.filter.evict addr
        evictions := Function.update s.evictions addr (s.evictions addr + 1) } := by
  refine ⟨h.perIp, h.global, h.rpcs, h.locals, h.owner, fun addr' limiter' hcached' => ?_,
    fun addr' => ?_⟩
  · dsimp only [Filter.evict] at hcached'
    by_cases haddr : addr' = addr
    · rw [haddr, Function.update_self] at hcached'
      cases hcached'
    · rw [Function.update_of_ne haddr] at hcached'
      exact h.cached addr' limiter' hcached'
  · have hmade := h.made addr'
    dsimp only [Filter.evict]
    by_cases haddr : addr' = addr
    · subst haddr
      rw [hcached] at hmade
      rw [Function.update_self, Function.update_self]
      exact hmade
    · rw [Function.update_of_ne haddr, Function.update_of_ne haddr]
      exact hmade

end Server.Balanced

/-! ## Asking for a permit -/

namespace Filter

variable {self : Filter IP} {incoming : Incoming IP} {withinRate : Bool}

theorem tryAcquirePermit_of_ok {permit : Permit}
    (h : (self.tryAcquirePermit incoming withinRate).1 = .ok permit) :
    permit = ⟨(self.limiters incoming.remoteAddress).1⟩ ∧
      (self.limiters incoming.remoteAddress).2.localSemaphore permit.limiter ≠ 0 ∧
      (self.limiters incoming.remoteAddress).2.globalSemaphore ≠ 0 ∧
      (self.tryAcquirePermit incoming withinRate).2 =
        (self.limiters incoming.remoteAddress).2.acquire permit.limiter := by
  rw [tryAcquirePermit] at h ⊢
  dsimp only at h ⊢
  split_ifs at h ⊢ with hvalid hrate hlocal hglobal
  obtain rfl := Except.ok.inj h
  exact ⟨rfl, hlocal, hglobal, rfl⟩

theorem tryAcquirePermit_of_error {reason : RejectionReason}
    (h : (self.tryAcquirePermit incoming withinRate).1 = .error reason) :
    (self.tryAcquirePermit incoming withinRate).2 = self ∨
      (self.tryAcquirePermit incoming withinRate).2 = (self.limiters incoming.remoteAddress).2 := by
  rw [tryAcquirePermit] at h ⊢
  dsimp only at h ⊢
  split_ifs at h ⊢
  · exact .inl rfl
  · exact .inr rfl
  · exact .inr rfl
  · exact .inr rfl

theorem tryAcquirePermit_isOk (addr : IP) :
    (self.tryAcquirePermit ⟨addr, true⟩ true).1.isOk = true ↔
      (self.limiters addr).2.localSemaphore (self.limiters addr).1 ≠ 0 ∧
        (self.limiters addr).2.globalSemaphore ≠ 0 := by
  rw [tryAcquirePermit]
  dsimp only
  rw [if_neg (by decide), if_neg (by decide)]
  split_ifs with hlocal hglobal
  · exact iff_of_false Bool.false_ne_true fun h => h.1 hlocal
  · exact iff_of_false Bool.false_ne_true fun h => h.2 hglobal
  · exact iff_of_true rfl ⟨hlocal, hglobal⟩

end Filter

theorem balanced_invariant (cfg : Config) : 
    Invariant (Step : Server IP → Server IP → Prop) (Server.Balanced cfg) := by
  intro s s' h hstep
  cases hstep with
  | @accept incoming withinRate permit hok =>
    obtain ⟨rfl, hlocal, hglobal, hfilter⟩ := Filter.tryAcquirePermit_of_ok hok
    obtain ⟨hbalanced, howner⟩ := h.limiters incoming.remoteAddress
    rw [hfilter]
    exact hbalanced.acquire howner hlocal hglobal
  | @reject incoming withinRate reason herror =>
    rcases Filter.tryAcquirePermit_of_error herror with hfilter | hfilter
    · rw [hfilter]
      exact h
    · rw [hfilter]
      exact (h.limiters incoming.remoteAddress).1
  | evict hcached => exact h.evict hcached
  | @acceptRpc conn _ _ hconn _ hpermits =>
    have hrpcs : s.rpcSemaphore - 1 + (conn.rpcs + 1) = s.rpcSemaphore + conn.rpcs := by omega
    exact h.update hconn { conn with rpcs := conn.rpcs + 1 } rfl rfl hrpcs
  | @finishRpc conn _ _ rpcs hconn hrpcs =>
    have hrpcs : s.rpcSemaphore + 1 + rpcs = s.rpcSemaphore + conn.rpcs := by omega
    exact h.update hconn { conn with rpcs } rfl rfl hrpcs
  | @finish conn _ _ hconn => exact h.update hconn { conn with handled := false } rfl rfl rfl
  | release hconn _ hrpcs => exact h.release hconn hrpcs

theorem Server.start_balanced {cfg : Config} {s : Server IP} (hstart : Server.start cfg = some s) :
    s.Balanced cfg := by
  rw [Server.start, Filter.new] at hstart
  split_ifs at hstart
  · cases hstart
  obtain rfl := Option.some.inj hstart
  exact ⟨rfl, rfl, rfl, fun _ h => absurd h (Nat.not_lt_zero _), fun _ h => absurd h List.not_mem_nil,
    fun _ _ h => (nomatch h), fun _ => rfl⟩

/-! ## The bounds -/

/-- If at most `k` of the elements are in each place, and each place has an owner, then an owner has at
most `k` elements for each of its places. -/
theorem countP_le_mul_count {α β : Type} [DecidableEq β] (k : Nat) (place : α → Nat) (owner : α → β)
    (b : β) (owners : List β) : ∀ l : List α, (∀ a ∈ l, owners[place a]? = some (owner a)) →
    (∀ i < owners.length, l.countP (place · = i) ≤ k) →
    l.countP (owner · = b) ≤ k * owners.count b := by
  induction owners using List.reverseRecOn with
  | nil =>
    intro l howner _
    have hnil : l = [] := List.eq_nil_iff_forall_not_mem.mpr fun a ha => by simpa using howner a ha
    rw [hnil]
    exact Nat.zero_le _
  | append_singleton owners c ih =>
    intro l howner hplaces
    -- the elements in the last place, and the others
    have hlast : (l.filter (place · = owners.length)).countP (owner · = b) ≤ k * [c].count b := by
      by_cases hc : c = b
      · rw [hc, List.count_singleton_self, Nat.mul_one]
        refine List.countP_le_length.trans ?_
        rw [← List.countP_eq_length_filter]
        exact hplaces _ (by simp)
      · refine (List.countP_eq_zero.mpr fun a ha => ?_).le.trans (Nat.zero_le _)
        obtain ⟨hmem, hplace⟩ := List.mem_filter.mp ha
        have ha := howner a hmem
        rw [of_decide_eq_true hplace, List.getElem?_concat_length, Option.some.injEq] at ha
        rwa [decide_eq_true_iff, ← ha]
    have hothers := ih (l.filter fun a => !(place a = owners.length : Bool))
      (fun a ha => by
        obtain ⟨hmem, hplace⟩ := List.mem_filter.mp ha
        have ha := howner a hmem
        have hlt := (List.getElem?_eq_some_iff.mp ha).1
        rw [List.length_append, List.length_singleton] at hlt
        rwa [List.getElem?_append_left (by simp at hplace; omega)] at ha)
      (fun i hi => (List.Sublist.countP_le List.filter_sublist).trans
        (hplaces i (by rw [List.length_append]; omega)))
    rw [List.countP_eq_countP_filter_add l _ (place · = owners.length), List.count_append, Nat.mul_add,
      Nat.add_comm]
    exact Nat.add_le_add hothers hlast

theorem eq_of_count_le_one {β : Type} [DecidableEq β] {l : List β} {b : β} (hcount : l.count b ≤ 1)
    {i j : Nat} (hi : l[i]? = some b) (hj : l[j]? = some b) : i = j := by
  obtain ⟨hilt, hi⟩ := List.getElem?_eq_some_iff.mp hi
  obtain ⟨hjlt, hj⟩ := List.getElem?_eq_some_iff.mp hj
  have hsingle {m n : Fin l.length} (hlt : m < n) (hm : b = l.get m) (hn : b = l.get n) : False :=
    absurd (List.duplicate_iff_two_le_count.mp
      (List.duplicate_iff_exists_distinct_get.mpr ⟨m, n, hlt, hm, hn⟩)) (by omega)
  rcases Nat.lt_trichotomy i j with hlt | heq | hlt
  · exact (hsingle (m := ⟨i, hilt⟩) (n := ⟨j, hjlt⟩) hlt hi.symm hj.symm).elim
  · exact heq
  · exact (hsingle (m := ⟨j, hjlt⟩) (n := ⟨i, hilt⟩) hlt hj.symm hi.symm).elim

namespace Server.Balanced

theorem countP_le (h : s.Balanced cfg) (addr : IP) :
    s.connections.countP (·.remoteAddr = addr) ≤
      cfg.maxConnectionsPerIp * (s.evictions addr + 1) := by
  have hcount := countP_le_mul_count cfg.maxConnectionsPerIp (·.permit.limiter) (·.remoteAddr) addr
    s.filter.made s.connections h.owner
    fun limiter hlt => (Nat.le_add_left _ _).trans (h.locals limiter hlt).le
  refine hcount.trans (Nat.mul_le_mul_left _ ?_)
  rw [h.made addr]
  exact Nat.add_le_add_left (Bool.toNat_le _) _

/-- As long as an address was not forgotten, its connections hold permits of the limiter that is
found. -/
theorem localSemaphore_add_countP (h : s.Balanced cfg) {addr : IP} (hnever : s.evictions addr = 0) :
    (s.filter.limiters addr).2.localSemaphore (s.filter.limiters addr).1 +
      s.connections.countP (·.remoteAddr = addr) = cfg.maxConnectionsPerIp := by
  obtain ⟨hbalanced, hlimiter⟩ := h.limiters addr
  have hcount : (s.filter.limiters addr).2.made.count addr ≤ 1 := by
    have hmade := hbalanced.made addr
    dsimp only at hmade
    rw [hmade, hnever, Nat.zero_add]
    exact Bool.toNat_le _
  have hsame : s.connections.countP (·.remoteAddr = addr) =
      s.connections.countP (·.permit.limiter = (s.filter.limiters addr).1) := by
    refine List.countP_congr fun conn hconn => ?_
    have howner := hbalanced.owner conn hconn
    simp only [decide_eq_true_iff]
    constructor
    · rintro rfl
      exact eq_of_count_le_one hcount howner hlimiter
    · intro hpermit
      rw [hpermit] at howner
      exact Option.some.inj (howner.symm.trans hlimiter)
  rw [hsame]
  exact hbalanced.locals _ (List.getElem?_eq_some_iff.mp hlimiter).1

end Server.Balanced

/-- In every state of a server there are at most as many connections and RPCs as configured, and from an
address at most as many as configured for each limiter that was made for it. A connection whose
address is known and within its rate gets a permit exactly if neither bound is reached, as long as its
address was never forgotten. -/
theorem connections_limited (cfg : Config) {s₀ s : Server IP} (hstart : Server.start cfg = some s₀)
    (hrun : Run Step s₀ s) :
    s.connections.length ≤ cfg.maxConnections ∧
    (s.connections.map InboundConnection.rpcs).sum ≤ cfg.maxConcurrentRpcs ∧
    (∀ addr, s.connections.countP (·.remoteAddr = addr) ≤
      cfg.maxConnectionsPerIp * (s.evictions addr + 1)) ∧
    ∀ addr, s.evictions addr = 0 →
      ((s.filter.tryAcquirePermit ⟨addr, true⟩ true).1.isOk = true ↔
        s.connections.countP (·.remoteAddr = addr) < cfg.maxConnectionsPerIp ∧
          s.connections.length < cfg.maxConnections) := by
  have h := (balanced_invariant cfg).run hrun (Server.start_balanced hstart)
  refine ⟨?_, ?_, h.countP_le, fun addr hnever => ?_⟩
  · exact (Nat.le_add_left _ _).trans h.global.le
  · exact (Nat.le_add_left _ _).trans h.rpcs.le
  · have hlocal := h.localSemaphore_add_countP hnever
    have hglobal := (h.limiters addr).1.global
    dsimp only at hglobal
    rw [Filter.tryAcquirePermit_isOk]
    omega

/-- Two connections, one per address. -/
def twoConnections : Config := ⟨2, 1, 1, 1⟩

def fresh : Server Bool := ⟨⟨2, fun _ => none, [], fun _ => 0, 1⟩, 1, [], fun _ => 0⟩

def accepted (s : Server Bool) (permit : Permit) : Server Bool :=
  { s with
    filter := (s.filter.tryAcquirePermit ⟨true, true⟩ true).2
    connections := ⟨true, permit, true, 0⟩ :: s.connections }

/-- The server has forgotten the address of its only connection. -/
def forgotten : Server Bool :=
  { accepted fresh ⟨0⟩ with
    filter := (accepted fresh ⟨0⟩).filter.evict true
    evictions := Function.update (fun _ => 0) true 1 }

theorem run_forgotten : Run Step fresh (accepted forgotten ⟨1⟩) := by
  have haccept : Step fresh (accepted fresh ⟨0⟩) := .accept fresh rfl
  have hcached : (accepted fresh ⟨0⟩).filter.localLimiters true = some 0 := rfl
  have hevict : Step (accepted fresh ⟨0⟩) forgotten := .evict _ hcached
  have haccept' : Step forgotten (accepted forgotten ⟨1⟩) := .accept forgotten rfl
  exact ((Relation.ReflTransGen.single haccept).tail hevict).tail haccept'

/-- A second connection from an address, since it was forgotten; none from the other one. -/
theorem connections_limited_forgotten :
    (accepted forgotten ⟨1⟩).connections.countP (·.remoteAddr = true) = 2 ∧
    2 ≤ 1 * ((accepted forgotten ⟨1⟩).evictions true + 1) ∧
    ((accepted forgotten ⟨1⟩).filter.tryAcquirePermit ⟨false, true⟩ true).1.isOk = false := by
  have hstart : Server.start twoConnections = some fresh := rfl
  obtain ⟨-, -, hcount, hok⟩ := connections_limited twoConnections hstart run_forgotten
  refine ⟨rfl, hcount true, Bool.eq_false_iff.mpr fun h => ?_⟩
  exact absurd ((hok false rfl).mp h).2 (by decide)

end ConnectionFilter
end Rpc
end Wcn
