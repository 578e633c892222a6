import Mathlib

/-!
# Wcn.Rpc.Throttling

Bandwidth limiting of a stream: `Throttled` of `crates/rpc/src/transport.rs`, its `poll_write` and
`poll_read`.

* The limiter is shared and its limit can change between any two polls; 0 switches it off.
* What a poll meets is given to it: for each turn of the loop of `poll_reserve` whether the delay is
  over and what the governor answers, and the answer of the stream below.
* `History` — the polls of a stream one after the other. Totals of credits and bytes are sums over it.

With the limiter off a write takes no credits but still spends them. A stream that was written to
while the limiter was off is in debt when it is switched on, and a poll repays at most the limit.
-/

namespace Wcn
namespace Rpc

variable {ε : Type}

def isizeMax : Nat := 2 ^ 63 - 1

def isizeMin : Int := -2 ^ 63

def u32Max : Nat := 2 ^ 32 - 1

inductive Poll (α : Type) where
  | pending
  | ready (a : α)
deriving DecidableEq

/-- The answers of `check_n`. -/
inductive Check where
  | granted
  | notUntil
  | insufficientCapacity (capacity : Nat)
deriving DecidableEq

/-- What a turn of the loop of `poll_reserve` meets. -/
structure Turn where
  /-- Whether the delay, if there is one, is over. -/
  delayOver : Bool
  checkN : Nat → Check

/-- `Throttled` without the stream below it. -/
structure Throttled where
  /-- The limit of the limiter in bytes per second, 0 if it is off. -/
  bps : Nat
  /-- Whether there is a delay. -/
  delay : Bool
  balance : Int
deriving DecidableEq

namespace Throttled

def new (bps : Nat) : Throttled := ⟨bps, false, 0⟩

/-- `BandwidthLimiter::set_bps` of the shared limiter. -/
def setBps (s : Throttled) (bytesPerSecond : Nat) : Throttled :=
  if s.bps = bytesPerSecond then s else { s with bps := bytesPerSecond }

def spend (s : Throttled) (amount : Nat) : Throttled :=
  { s with balance := max isizeMin (s.balance - min amount isizeMax) }

/-- What `poll_reserve` did: the credits it acquired, and its answer. -/
structure Reservation where
  stream : Throttled
  credits : Nat
  poll : Poll Nat
deriving DecidableEq

/-- The loop of `poll_reserve`; `none` if it goes on after the given turns. -/
def reserveLoop (amount : Nat) (s : Throttled) : List Turn → Option Reservation
  | [] => none
  | turn :: turns =>
    if s.delay && !turn.delayOver then
      some ⟨s, 0, .pending⟩
    else
      match turn.checkN amount with
      | .granted =>
        let balance := s.balance + amount
        -- a negative balance is no credit
        some ⟨{ s with delay := false, balance }, amount, .ready balance.toNat⟩
      | .notUntil => reserveLoop amount { s with delay := true } turns
      | .insufficientCapacity capacity => reserveLoop capacity { s with delay := false } turns

def pollReserve (s : Throttled) (amount : Nat) (turns : List Turn) : Option Reservation :=
  if s.bps = 0 then
    some ⟨s, 0, .ready amount⟩
  else
    let amount := min amount isizeMax
    if amount ≤ s.balance then
      some ⟨s, 0, .ready amount⟩
    else
      let deficit := min (amount - s.balance).toNat u32Max
      reserveLoop deficit s turns

end Throttled

/-- What a poll returns. Taking a slice past the end of the buffer panics. -/
inductive Outcome (ε : Type) where
  | pending
  | ready (res : Except ε Nat)
  | panic

/-- What a poll did. -/
structure Polled (ε : Type) where
  /-- Acquired from the limiter. -/
  credits : Nat
  /-- The stream once it has reserved. -/
  reserved : Throttled
  /-- The length of the buffer that the stream below got, if it was polled. -/
  handed : Option Nat
  stream : Throttled
  outcome : Outcome ε

open Throttled

/-- With the answer of the inner writer to a slice of each length. -/
def pollWrite (s : Throttled) (len : Nat) (turns : List Turn) (inner : Nat → Poll (Except ε Nat)) :
    Option (Polled ε) := do
  let r ← s.pollReserve len turns
  match r.poll with
  | .pending => some ⟨r.credits, r.stream, none, r.stream, .pending⟩
  | .ready reserved =>
    if reserved ≤ len then
      match inner reserved with
      | .pending => some ⟨r.credits, r.stream, some reserved, r.stream, .pending⟩
      | .ready (.ok n) => some ⟨r.credits, r.stream, some reserved, r.stream.spend n, .ready (.ok n)⟩
      -- the whole buffer counts as written
      | .ready (.error e) =>
        some ⟨r.credits, r.stream, some reserved, r.stream.spend len, .ready (.error e)⟩
    else
      some ⟨r.credits, r.stream, none, r.stream, .panic⟩

/-- With the answer of the inner reader to a buffer of each length. `len` is what remains of the
caller's buffer. -/
def pollRead (s : Throttled) (len : Nat) (turns : List Turn) (inner : Nat → Poll (Except ε Nat)) :
    Option (Polled ε) :=
  if s.bps = 0 then
    match inner len with
    | .pending => some ⟨0, s, some len, s, .pending⟩
    | .ready res => some ⟨0, s, some len, s, .ready res⟩
  else do
    let r ← s.pollReserve 0 turns
    match r.poll with
    | .pending => some ⟨r.credits, r.stream, none, r.stream, .pending⟩
    | .ready _ =>
      let newBuf := if s.bps ≤ len then s.bps else len
      match inner newBuf with
      | .pending => some ⟨r.credits, r.stream, some newBuf, r.stream, .pending⟩
      | .ready (.ok n) => some ⟨r.credits, r.stream, some newBuf, r.stream.spend n, .ready (.ok n)⟩
      | .ready (.error e) => some ⟨r.credits, r.stream, some newBuf, r.stream, .ready (.error e)⟩

/-! ## Reserving -/

/-- More than the limit is refused for good, nothing else is. -/
def Turn.Sound (limit : Nat) (turn : Turn) : Prop :=
  ∀ n capacity, turn.checkN n = .insufficientCapacity capacity → capacity = limit ∧ limit < n

/-- Everything beyond the limit is refused for good, and nothing else is. -/
def Turn.Exact (limit : Nat) (turn : Turn) : Prop :=
  ∀ n capacity, turn.checkN n = .insufficientCapacity capacity ↔ capacity = limit ∧ limit < n

theorem Turn.Exact.sound {limit : Nat} {turn : Turn} (h : turn.Exact limit) : turn.Sound limit :=
  fun n capacity => (h n capacity).mp

namespace Throttled

theorem reserveLoop_spec {s : Throttled} {amount : Nat} {turns : List Turn} {r : Reservation}
    (hsound : ∀ turn ∈ turns, turn.Sound s.bps) (h : reserveLoop amount s turns = some r) :
    r.stream.bps = s.bps ∧ r.stream.balance = s.balance + r.credits ∧
      (r.poll = .pending ∧ r.credits = 0 ∨ r.poll = .ready r.stream.balance.toNat ∧
        (r.credits = amount ∨ r.credits = s.bps ∧ s.bps < amount)) := by
  induction turns generalizing s amount with
  | nil => cases h
  | cons turn turns ih =>
    obtain ⟨hturn, hturns⟩ := List.forall_mem_cons.mp hsound
    rw [reserveLoop] at h
    split at h
    · cases h
      exact ⟨rfl, (Int.add_zero _).symm, .inl ⟨rfl, rfl⟩⟩
    · split at h
      · cases h
        exact ⟨rfl, rfl, .inr ⟨rfl, .inl rfl⟩⟩
      · exact @ih { s with delay := true } _ hturns h
      · next capacity hcheck =>
        -- the request for the limit itself is not refused again
        obtain ⟨rfl, hlt⟩ := hturn _ _ hcheck
        obtain ⟨hbps, hbalance, hpoll⟩ := @ih { s with delay := false } _ hturns h
        refine ⟨hbps, hbalance, hpoll.imp_right fun ⟨hready, hcredits⟩ => ⟨hready, .inr ?_⟩⟩
        rcases hcredits with hcredits | ⟨_, habsurd⟩
        · exact ⟨hcredits, hlt⟩
        · exact absurd habsurd (Nat.lt_irrefl _)

/-- A request beyond the limit is not granted, so no more than the limit is acquired. -/
theorem reserveLoop_credits_le {s : Throttled} {amount : Nat} {turns : List Turn} {r : Reservation}
    (hexact : ∀ turn ∈ turns, turn.Exact s.bps) (h : reserveLoop amount s turns = some r) :
    r.credits ≤ s.bps := by
  induction turns generalizing s amount with
  | nil => cases h
  | cons turn turns ih =>
    obtain ⟨hturn, hturns⟩ := List.forall_mem_cons.mp hexact
    rw [reserveLoop] at h
    split at h
    · cases h
      exact Nat.zero_le _
    · split at h
      · next hgranted =>
        cases h
        refine Nat.not_lt.mp fun hlt => ?_
        rw [(hturn amount s.bps).mpr ⟨rfl, hlt⟩] at hgranted
        cases hgranted
      · exact @ih { s with delay := true } _ hturns h
      · exact @ih { s with delay := false } _ hturns h

theorem pollReserve_credits_le {s : Throttled} {amount : Nat} {turns : List Turn} {r : Reservation}
    (hexact : ∀ turn ∈ turns, turn.Exact s.bps) (h : s.pollReserve amount turns = some r) :
    r.credits ≤ s.bps := by
  rw [pollReserve] at h
  split at h
  · cases h
    exact Nat.zero_le _
  · dsimp only at h
    split at h
    · cases h
      exact Nat.zero_le _
    · exact reserveLoop_credits_le hexact h

/-- What `poll_reserve` can do. -/
inductive Reserves (s : Throttled) (amount : Nat) (r : Reservation) : Prop where
  | off (hoff : s.bps = 0) (hr : r = ⟨s, 0, .ready amount⟩)
  | enough (hon : s.bps ≠ 0) (hle : (min amount isizeMax : Nat) ≤ s.balance)
      (hr : r = ⟨s, 0, .ready (min amount isizeMax)⟩)
  | waits (hon : s.bps ≠ 0) (hbps : r.stream.bps = s.bps) (hbalance : r.stream.balance = s.balance)
      (hcredits : r.credits = 0) (hpoll : r.poll = .pending)
  | acquires (deficit : Nat) (hon : s.bps ≠ 0) (hlt : s.balance < (min amount isizeMax : Nat))
      (hdeficit : deficit = min ((min amount isizeMax : Nat) - s.balance).toNat u32Max)
      (hbps : r.stream.bps = s.bps) (hbalance : r.stream.balance = s.balance + r.credits)
      (hcredits : r.credits = deficit ∨ r.credits = s.bps ∧ s.bps < deficit)
      (hpoll : r.poll = .ready r.stream.balance.toNat)

theorem pollReserve_spec {s : Throttled} {amount : Nat} {turns : List Turn} {r : Reservation}
    (hsound : ∀ turn ∈ turns, turn.Sound s.bps) (h : s.pollReserve amount turns = some r) :
    Reserves s amount r := by
  rw [pollReserve] at h
  split at h
  · next hoff =>
    cases h
    exact .off hoff rfl
  · next hon =>
    dsimp only at h
    split at h
    · next hle =>
      cases h
      exact .enough hon hle rfl
    · next hlt =>
      obtain ⟨hbps, hbalance, ⟨hpoll, hcredits⟩ | ⟨hpoll, hcredits⟩⟩ := reserveLoop_spec hsound h
      · rw [hcredits] at hbalance
        exact .waits hon hbps (hbalance.trans (Int.add_zero _)) hcredits hpoll
      · exact .acquires _ hon (Int.not_le.mp hlt) rfl hbps hbalance hcredits hpoll

namespace Reserves

variable {s : Throttled} {amount : Nat} {r : Reservation}

theorem bps_eq (h : Reserves s amount r) : r.stream.bps = s.bps := by
  cases h with
  | off _ hr => rw [hr]
  | enough _ _ hr => rw [hr]
  | waits _ hbps => exact hbps
  | acquires _ _ _ _ hbps => exact hbps

theorem balance_eq (h : Reserves s amount r) : r.stream.balance = s.balance + r.credits := by
  cases h with
  | off _ hr => rw [hr]; exact (Int.add_zero _).symm
  | enough _ _ hr => rw [hr]; exact (Int.add_zero _).symm
  | waits _ _ hbalance hcredits => rw [hbalance, hcredits]; exact (Int.add_zero _).symm
  | acquires _ _ _ _ _ hbalance => exact hbalance

theorem eq_of_off (h : Reserves s amount r) (hoff : s.bps = 0) : r = ⟨s, 0, .ready amount⟩ := by
  cases h with
  | off _ hr => exact hr
  | enough hon => exact absurd hoff hon
  | waits hon => exact absurd hoff hon
  | acquires _ hon => exact absurd hoff hon

/-- Credits beyond what is asked for are never acquired, and what is ready is the balance up to what is
asked for. -/
theorem ready_eq (h : Reserves s amount r) (hon : s.bps ≠ 0) {k : Nat} (hpoll : r.poll = .ready k) :
    (k : Int) = max 0 (min ((min amount isizeMax : Nat) : Int) r.stream.balance) := by
  cases h with
  | off hoff => exact absurd hoff hon
  | enough _ hle hr =>
    rw [hr] at hpoll ⊢
    cases hpoll
    dsimp only
    omega
  | waits _ _ _ _ hpending =>
    rw [hpending] at hpoll
    cases hpoll
  | acquires deficit _ hlt hdeficit _ hbalance hcredits hready =>
    rw [hready, Poll.ready.injEq] at hpoll
    omega

theorem ready_le (h : Reserves s amount r) {k : Nat} (hpoll : r.poll = .ready k) : k ≤ amount := by
  by_cases hon : s.bps = 0
  · rw [h.eq_of_off hon, Poll.ready.injEq] at hpoll
    exact Nat.le_of_eq hpoll.symm
  · have hk := h.ready_eq hon hpoll
    omega

/-- A debt of at most the limit is repaid at once. -/
theorem nonneg_of_ready (h : Reserves s 0 r) (hon : s.bps ≠ 0) (hmax : s.bps ≤ u32Max)
    (hdebt : -s.bps ≤ s.balance) {k : Nat} (hpoll : r.poll = .ready k) : 0 ≤ r.stream.balance := by
  cases h with
  | off hoff => exact absurd hoff hon
  | enough _ hle hr =>
    rw [hr]
    exact Int.le_trans (Int.natCast_nonneg _) hle
  | waits _ _ _ _ hpending =>
    rw [hpending] at hpoll
    cases hpoll
  | acquires deficit _ hlt hdeficit _ hbalance hcredits _ => omega

/-- Without a debt there is something to give away. -/
theorem pos_of_ready (h : Reserves s amount r) (hon : s.bps ≠ 0) (hbalance : 0 ≤ s.balance)
    (hamount : 0 < amount) {k : Nat} (hpoll : r.poll = .ready k) : 0 < r.stream.balance := by
  have hmax : 0 < isizeMax ∧ 0 < u32Max := by decide
  cases h with
  | off hoff => exact absurd hoff hon
  | enough _ hle hr =>
    rw [hr]
    dsimp only
    omega
  | waits _ _ _ _ hpending =>
    rw [hpending] at hpoll
    cases hpoll
  | acquires deficit _ hlt hdeficit _ hbalance' hcredits _ => omega

end Reserves

theorem spend_balance {s : Throttled} {n : Nat} (hn : n ≤ isizeMax) (hmin : isizeMin ≤ s.balance - n) :
    (s.spend n).balance = s.balance - n := by
  rw [spend]
  dsimp only
  omega

theorem setBps_balance (s : Throttled) (bytesPerSecond : Nat) :
    (s.setBps bytesPerSecond).balance = s.balance := by
  rw [setBps]
  split <;> rfl

end Throttled

/-! ## Polls -/

namespace Polled

/-- The bytes that the stream below took or gave. -/
def bytes (p : Polled ε) : Nat :=
  match p.outcome with
  | .ready (.ok n) => n
  | _ => 0

/-- `Ok(0)`, and not because the inner writer said so of a non-empty slice. -/
def Starved (p : Polled ε) : Prop := p.outcome = .ready (.ok 0) ∧ ∀ k ∈ p.handed, k = 0

end Polled

/-- The inner writer returns no error and reports at most the slice it was given. -/
def Honest (inner : Nat → Poll (Except ε Nat)) : Prop :=
  ∀ len, inner len = .pending ∨ ∃ n ≤ len, inner len = .ready (.ok n)

def Writes (s : Throttled) (len : Nat) (p : Polled ε) : Prop :=
  ∃ turns inner, (∀ turn ∈ turns, turn.Sound s.bps) ∧ Honest inner ∧
    pollWrite s len turns inner = some p

/-- With a governor that keeps to its documentation. -/
def ExactWrites (s : Throttled) (len : Nat) (p : Polled ε) : Prop :=
  ∃ turns inner, (∀ turn ∈ turns, turn.Exact s.bps) ∧ Honest inner ∧
    pollWrite s len turns inner = some p

/-- The inner reader cannot fill more than the buffer it was given. -/
def Reads (s : Throttled) (len : Nat) (p : Polled ε) : Prop :=
  ∃ turns inner, (∀ turn ∈ turns, turn.Sound s.bps) ∧
    (∀ len n, inner len = .ready (.ok n) → n ≤ len) ∧ pollRead s len turns inner = some p

variable {s : Throttled} {len : Nat} {p : Polled ε}

theorem Writes.spec (h : Writes s len p) :
    ∃ r, Reserves s len r ∧ p.credits = r.credits ∧ p.reserved = r.stream ∧
      (p.outcome = .pending ∧ p.stream = r.stream ∨
        ∃ k n, r.poll = .ready k ∧ p.handed = some k ∧ n ≤ k ∧ p.outcome = .ready (.ok n) ∧
          p.stream = r.stream.spend n) := by
  obtain ⟨turns, inner, hsound, hinner, hp⟩ := h
  rw [pollWrite] at hp
  obtain ⟨r, hr, hp⟩ := Option.bind_eq_some_iff.mp hp
  have hreserves := pollReserve_spec hsound hr
  refine ⟨r, hreserves, ?_⟩
  cases hpoll : r.poll with
  | pending =>
    simp only [hpoll] at hp
    cases hp
    exact ⟨rfl, rfl, .inl ⟨rfl, rfl⟩⟩
  | ready k =>
    simp only [hpoll, if_pos (hreserves.ready_le hpoll)] at hp
    rcases hinner k with hpending | ⟨n, hn, hready⟩
    · simp only [hpending] at hp
      cases hp
      exact ⟨rfl, rfl, .inl ⟨rfl, rfl⟩⟩
    · simp only [hready] at hp
      cases hp
      exact ⟨rfl, rfl, .inr ⟨k, n, rfl, rfl, hn, rfl, rfl⟩⟩

theorem Reads.spec (h : Reads s len p) (hon : s.bps ≠ 0) :
    ∃ r, Reserves s 0 r ∧ p.credits = r.credits ∧ p.reserved = r.stream ∧
      (p.handed = none ∧ p.bytes = 0 ∧ p.stream = r.stream ∨
        ∃ k, r.poll = .ready k ∧
          (p.bytes = 0 ∧ p.stream = r.stream ∨
            p.bytes ≤ s.bps ∧ p.stream = r.stream.spend p.bytes)) := by
  obtain ⟨turns, inner, hsound, hinner, hp⟩ := h
  rw [pollRead, if_neg hon] at hp
  obtain ⟨r, hr, hp⟩ := Option.bind_eq_some_iff.mp hp
  refine ⟨r, pollReserve_spec hsound hr, ?_⟩
  cases hpoll : r.poll with
  | pending =>
    simp only [hpoll] at hp
    cases hp
    exact ⟨rfl, rfl, .inl ⟨rfl, rfl, rfl⟩⟩
  | ready k =>
    simp only [hpoll] at hp
    have hbuf : (if s.bps ≤ len then s.bps else len) ≤ s.bps := by
      split <;> omega
    generalize (if s.bps ≤ len then s.bps else len) = newBuf at hp hbuf
    split at hp
    · cases hp
      exact ⟨rfl, rfl, .inr ⟨k, rfl, .inl ⟨rfl, rfl⟩⟩⟩
    · next n hn =>
      cases hp
      exact ⟨rfl, rfl, .inr ⟨k, rfl, .inr ⟨(hinner _ _ hn).trans hbuf, rfl⟩⟩⟩
    · cases hp
      exact ⟨rfl, rfl, .inr ⟨k, rfl, .inl ⟨rfl, rfl⟩⟩⟩

theorem Writes.bps_eq (h : Writes s len p) : p.stream.bps = s.bps := by
  obtain ⟨r, hr, _, _, ⟨_, hstream⟩ | ⟨_, _, _, _, _, _, hstream⟩⟩ := h.spec <;> rw [hstream] <;>
    exact hr.bps_eq

/-! ## Starving -/

theorem Writes.not_panic (h : Writes s len p) : p.outcome ≠ .panic := by
  obtain ⟨_, _, _, _, ⟨houtcome, _⟩ | ⟨_, _, _, _, _, houtcome, _⟩⟩ := h.spec <;>
    rw [houtcome] <;> nofun

/-- The inner writer gets an empty slice if the stream is in debt even after it has reserved. -/
theorem Writes.starved_iff (h : Writes s len p) (hlen : 0 < len) :
    p.Starved ↔ (∃ n, p.outcome = .ready (.ok n)) ∧ s.bps ≠ 0 ∧ s.balance + p.credits ≤ 0 := by
  obtain ⟨r, hr, hcredits, _, ⟨houtcome, _⟩ | ⟨k, n, hpoll, hhanded, hn, houtcome, _⟩⟩ := h.spec
  · simp [Polled.Starved, houtcome]
  · have hempty : k = 0 ↔ s.bps ≠ 0 ∧ s.balance + p.credits ≤ 0 := by
      by_cases hon : s.bps = 0
      · rw [hr.eq_of_off hon, Poll.ready.injEq] at hpoll
        omega
      · have hk := hr.ready_eq hon hpoll
        have hbalance := hr.balance_eq
        have hmax : 0 < isizeMax := by decide
        rw [hcredits]
        omega
    rw [← hempty, Polled.Starved, houtcome, hhanded]
    constructor
    · rintro ⟨_, hzero⟩
      exact ⟨⟨n, rfl⟩, hzero k rfl⟩
    · rintro ⟨_, rfl⟩
      rw [Nat.le_zero.mp hn]
      exact ⟨rfl, fun _ hk => (Option.some.inj hk).symm⟩

theorem ExactWrites.writes (h : ExactWrites s len p) : Writes s len p := by
  obtain ⟨turns, inner, hexact, hinner, hp⟩ := h
  exact ⟨turns, inner, fun turn hturn => (hexact turn hturn).sound, hinner, hp⟩

theorem ExactWrites.credits_le (h : ExactWrites s len p) : p.credits ≤ s.bps := by
  obtain ⟨turns, inner, hexact, _, hp⟩ := h
  rw [pollWrite] at hp
  obtain ⟨r, hr, hp⟩ := Option.bind_eq_some_iff.mp hp
  have hcredits : p.credits = r.credits := by
    repeat' split at hp
    all_goals
      cases hp
      rfl
  rw [hcredits]
  exact pollReserve_credits_le hexact hr

/-- What a poll acquires is at most the limit, and if it is less then it is all that was missing. -/
theorem ExactWrites.starved_iff (h : ExactWrites s len p) (hlen : 0 < len) (hmax : s.bps ≤ u32Max) :
    p.Starved ↔ (∃ n, p.outcome = .ready (.ok n)) ∧ s.bps ≠ 0 ∧ s.balance + s.bps ≤ 0 := by
  rw [h.writes.starved_iff hlen]
  refine and_congr_right fun ⟨n, hready⟩ => and_congr_right fun hon => ?_
  have hle := h.credits_le
  obtain ⟨r, hr, hcredits, _, ⟨houtcome, _⟩ | ⟨k, n, hpoll, _⟩⟩ := h.writes.spec
  · rw [houtcome] at hready
    cases hready
  · cases hr with
    | off hoff => exact absurd hoff hon
    | enough _ hbalance hr =>
      have hpos : 0 < isizeMax := by decide
      rw [hcredits, hr]
      dsimp only
      omega
    | waits _ _ _ _ hpending =>
      rw [hpending] at hpoll
      cases hpoll
    | acquires deficit _ hlt hdeficit _ _ hacquired =>
      have hpos : 0 < isizeMax := by decide
      omega

theorem Writes.not_starved (h : Writes s len p) (hlen : 0 < len) (hon : s.bps ≠ 0)
    (hbalance : 0 ≤ s.balance) : ¬p.Starved := by
  intro hstarved
  obtain ⟨⟨_, hready⟩, _, hdebt⟩ := (h.starved_iff hlen).mp hstarved
  obtain ⟨r, hr, hcredits, _, ⟨houtcome, _⟩ | ⟨k, n, hpoll, _⟩⟩ := h.spec
  · rw [houtcome] at hready
    cases hready
  · have hpos := hr.pos_of_ready hon hbalance hlen hpoll
    rw [hr.balance_eq, ← hcredits] at hpos
    omega

/-! ## Accounts -/

theorem Writes.account (h : Writes s len p) (hon : s.bps ≠ 0) (hbalance : 0 ≤ s.balance) :
    p.stream.balance = s.balance + p.credits - p.bytes ∧ 0 ≤ p.stream.balance := by
  obtain ⟨r, hr, hcredits, _, ⟨houtcome, hstream⟩ | ⟨k, n, hpoll, _, hn, houtcome, hstream⟩⟩ := h.spec
  · rw [Polled.bytes, houtcome, hstream, hr.balance_eq, hcredits]
    dsimp only
    omega
  · have hk := hr.ready_eq hon hpoll
    have hreserved := hr.balance_eq
    have hmin : isizeMin ≤ 0 := by decide
    rw [Polled.bytes, houtcome, hstream, spend_balance (by omega) (by omega), hcredits]
    dsimp only
    omega

theorem Reads.account (h : Reads s len p) (hon : s.bps ≠ 0) (hmax : s.bps ≤ u32Max)
    (hdebt : -s.bps ≤ s.balance) :
    p.stream.bps = s.bps ∧ p.stream.balance = s.balance + p.credits - p.bytes ∧
      -s.bps ≤ p.stream.balance ∧ (p.handed.isSome = true → 0 ≤ p.reserved.balance) := by
  obtain ⟨r, hr, hcredits, hreserved, ⟨hhanded, hbytes, hstream⟩ | ⟨k, hpoll, hend⟩⟩ := h.spec hon
  · have hbalance := hr.balance_eq
    rw [hbytes, hstream, hcredits, hhanded]
    refine ⟨hr.bps_eq, ?_, ?_, fun hsome => by cases hsome⟩ <;> omega
  · have hbalance := hr.balance_eq
    have hnonneg := hr.nonneg_of_ready hon hmax hdebt hpoll
    have hword : isizeMin ≤ -u32Max ∧ u32Max ≤ isizeMax := by decide
    rw [hreserved, hcredits]
    rcases hend with ⟨hbytes, hstream⟩ | ⟨hbytes, hstream⟩
    · rw [hbytes, hstream]
      refine ⟨hr.bps_eq, ?_, ?_, fun _ => hnonneg⟩ <;> omega
    · rw [hstream, spend_balance (by omega) (by omega)]
      refine ⟨hr.bps_eq, ?_, ?_, fun _ => hnonneg⟩ <;> omega

structure Call (ε : Type) where
  before : Throttled
  len : Nat
  polled : Polled ε

/-- The calls on a stream, the latest first. In between the limit is changed in the ways that `changes`
allows. -/
inductive History (poll : Throttled → Nat → Polled ε → Prop) (changes : Nat → Prop) (bps : Nat) :
    List (Call ε) → Throttled → Prop
  | new : History poll changes bps [] (Throttled.new bps)
  | setBps {calls s bytesPerSecond} : History poll changes bps calls s → changes bytesPerSecond →
      History poll changes bps calls (s.setBps bytesPerSecond)
  | poll {calls s len p} : History poll changes bps calls s → poll s len p →
      History poll changes bps (⟨s, len, p⟩ :: calls) p.stream

def acquired (calls : List (Call ε)) : Nat := (calls.map (·.polled.credits)).sum

def transferred (calls : List (Call ε)) : Nat := (calls.map (·.polled.bytes)).sum

@[simp] theorem acquired_cons (call : Call ε) (calls : List (Call ε)) :
    acquired (call :: calls) = call.polled.credits + acquired calls := rfl

@[simp] theorem transferred_cons (call : Call ε) (calls : List (Call ε)) :
    transferred (call :: calls) = call.polled.bytes + transferred calls := rfl

section History

variable {poll : Throttled → Nat → Polled ε → Prop} {changes : Nat → Prop} {bps : Nat}
variable {calls : List (Call ε)}

theorem History.poll_of_mem (h : History poll changes bps calls s) :
    ∀ call ∈ calls, poll call.before call.len call.polled := by
  induction h with
  | new => exact fun _ hcall => absurd hcall List.not_mem_nil
  | setBps _ _ ih => exact ih
  | poll _ hpoll ih => exact List.forall_mem_cons.mpr ⟨hpoll, ih⟩

theorem History.mono {poll' : Throttled → Nat → Polled ε → Prop} {changes' : Nat → Prop}
    (h : History poll changes bps calls s) (hpoll : ∀ s len p, poll s len p → poll' s len p)
    (hchanges : ∀ n, changes n → changes' n) : History poll' changes' bps calls s := by
  induction h with
  | new => exact .new
  | setBps _ hchange ih => exact .setBps ih (hchanges _ hchange)
  | poll _ hp ih => exact .poll ih (hpoll _ _ _ hp)

/-- A limit is a word. -/
theorem History.bps_le (h : History ExactWrites (· ≤ u32Max) bps calls s) (hbps : bps ≤ u32Max) :
    s.bps ≤ u32Max ∧ ∀ call ∈ calls, call.before.bps ≤ u32Max := by
  induction h with
  | new => exact ⟨hbps, fun _ hcall => absurd hcall List.not_mem_nil⟩
  | setBps _ hchange ih =>
    refine ⟨?_, ih.2⟩
    rw [Throttled.setBps]
    split
    · exact ih.1
    · exact hchange
  | poll _ hwrites ih =>
    exact ⟨hwrites.writes.bps_eq.symm ▸ ih.1, List.forall_mem_cons.mpr ih⟩

/-- Whatever the limits are, if the limiter is never off. -/
theorem History.write_account (h : History Writes changes bps calls s)
    (hon : ∀ call ∈ calls, call.before.bps ≠ 0) :
    s.balance = acquired calls - transferred calls ∧ 0 ≤ s.balance := by
  induction h with
  | new => exact ⟨rfl, Int.le_refl 0⟩
  | setBps _ _ ih =>
    rw [setBps_balance]
    exact ih hon
  | poll _ hwrites ih =>
    obtain ⟨hcall, hcalls⟩ := List.forall_mem_cons.mp hon
    obtain ⟨hbalance, hnonneg⟩ := ih hcalls
    obtain ⟨hbalance', hnonneg'⟩ := hwrites.account hcall hnonneg
    refine ⟨?_, hnonneg'⟩
    rw [acquired_cons, transferred_cons, hbalance', hbalance]
    push_cast
    omega

theorem History.not_starved (h : History Writes changes bps calls s)
    (hon : ∀ call ∈ calls, call.before.bps ≠ 0) :
    ∀ call ∈ calls, 0 < call.len → ¬call.polled.Starved := by
  induction h with
  | new => exact fun _ hcall => absurd hcall List.not_mem_nil
  | setBps _ _ ih => exact ih hon
  | poll hhistory hwrites ih =>
    obtain ⟨hcall, hcalls⟩ := List.forall_mem_cons.mp hon
    refine List.forall_mem_cons.mpr ⟨fun hlen => ?_, ih hcalls⟩
    exact hwrites.not_starved hlen hcall (hhistory.write_account hcalls).2

/-- With a fixed limit. -/
theorem History.read_account (h : History Reads (fun _ => False) bps calls s) (hon : bps ≠ 0)
    (hmax : bps ≤ u32Max) :
    s.bps = bps ∧ s.balance = acquired calls - transferred calls ∧ -bps ≤ s.balance ∧
      ∀ call ∈ calls, call.polled.handed.isSome = true → 0 ≤ call.polled.reserved.balance := by
  induction h with
  | new =>
    exact ⟨rfl, rfl, Int.neg_nonpos_of_nonneg (Int.natCast_nonneg _),
      fun _ hcall => absurd hcall List.not_mem_nil⟩
  | setBps _ hchange => exact hchange.elim
  | poll _ hreads ih =>
    obtain ⟨rfl, hbalance, hdebt, hcalls⟩ := ih
    obtain ⟨hbps', hbalance', hdebt', hhanded⟩ := hreads.account hon hmax hdebt
    refine ⟨hbps', ?_, hdebt', List.forall_mem_cons.mpr ⟨hhanded, hcalls⟩⟩
    rw [acquired_cons, transferred_cons, hbalance', hbalance]
    push_cast
    omega

theorem History.bps_eq (h : History Writes (fun _ => False) bps calls s) :
    s.bps = bps ∧ ∀ call ∈ calls, call.before.bps = bps := by
  induction h with
  | new => exact ⟨rfl, fun _ hcall => absurd hcall List.not_mem_nil⟩
  | setBps _ hchange => exact hchange.elim
  | poll _ hwrites ih => exact ⟨hwrites.bps_eq.trans ih.1, List.forall_mem_cons.mpr ih⟩

end History

/-- The governor of a limiter that has all its credits. -/
def readyTurn (limit : Nat) : Turn where
  delayOver := true
  checkN n := if limit < n then .insufficientCapacity limit else .granted

theorem exact_readyTurn (limit : Nat) : (readyTurn limit).Exact limit := by
  intro n capacity
  simp only [readyTurn]
  split
  · next hlt => exact ⟨fun h => ⟨(Check.insufficientCapacity.inj h).symm, hlt⟩, fun h => h.1 ▸ rfl⟩
  · next hle => exact ⟨fun h => (by cases h), fun h => absurd h.2 hle⟩

/-- A stream below that takes or gives as much as it can. -/
def eager (len : Nat) : Poll (Except ε Nat) := .ready (.ok len)

theorem honest_eager : @Honest ε eager := fun len => .inr ⟨len, Nat.le_refl len, rfl⟩

/-- With all credits available two turns are enough. -/
theorem pollReserve_readyTurn (s : Throttled) (amount : Nat) :
    ∃ r k, s.pollReserve amount [readyTurn s.bps, readyTurn s.bps] = some r ∧ r.poll = .ready k := by
  rw [pollReserve]
  split
  · exact ⟨_, _, rfl, rfl⟩
  · dsimp only
    split
    · exact ⟨_, _, rfl, rfl⟩
    · simp only [reserveLoop, readyTurn, Bool.not_true, Bool.and_false, Bool.false_eq_true, if_false]
      split
      · exact ⟨_, _, rfl, rfl⟩
      · next h => split at h <;> cases h
      · next h =>
        split at h <;> cases h
        simp only [Nat.lt_irrefl, if_false]
        exact ⟨_, _, rfl, rfl⟩

/-- A poll can complete in every state. -/
theorem exists_write (s : Throttled) (len : Nat) :
    ∃ p : Polled ε, ExactWrites s len p ∧ ∃ n, p.outcome = .ready (.ok n) := by
  obtain ⟨r, k, hr, hpoll⟩ := pollReserve_readyTurn s len
  have hexact : ∀ turn ∈ [readyTurn s.bps, readyTurn s.bps], turn.Exact s.bps := by
    simp [exact_readyTurn]
  have hle := (pollReserve_spec (fun turn hturn => (hexact turn hturn).sound) hr).ready_le hpoll
  refine ⟨⟨r.credits, r.stream, some k, r.stream.spend k, .ready (.ok k)⟩,
    ⟨_, eager, hexact, honest_eager, ?_⟩, k, rfl⟩
  simp only [pollWrite, hr, Option.bind_eq_bind, Option.bind_some, hpoll, if_pos hle, eager]

/-- A poll never slices past the end of the buffer. It returns `Ok(0)` for a slice that it made empty
itself exactly if it completes while the limiter is on and the debt of the stream is at least the
limit. So no poll of a stream can do so exactly if the limiter is off or its debt is less than the
limit, which is always so if the stream is only written to while the limiter is on. -/
theorem starved_iff_in_debt {bps : Nat} {calls : List (Call ε)} (hbps : bps ≤ u32Max)
    (h : History ExactWrites (· ≤ u32Max) bps calls s) :
    (∀ call ∈ calls, call.polled.outcome ≠ .panic) ∧
    (∀ call ∈ calls, 0 < call.len →
      (call.polled.Starved ↔ (∃ n, call.polled.outcome = .ready (.ok n)) ∧ call.before.bps ≠ 0 ∧
        call.before.balance + call.before.bps ≤ 0)) ∧
    (∀ len, 0 < len →
      ((∀ p : Polled ε, ExactWrites s len p → ¬p.Starved) ↔ s.bps = 0 ∨ 0 < s.balance + s.bps)) ∧
    ((∀ call ∈ calls, call.before.bps ≠ 0) →
      ∀ call ∈ calls, 0 < call.len → ¬call.polled.Starved) := by
  obtain ⟨hmax, hmaxs⟩ := h.bps_le hbps
  have hwrites : History Writes (fun _ => True) bps calls s :=
    h.mono (fun _ _ _ hp => hp.writes) fun _ _ => trivial
  refine ⟨fun call hcall => (hwrites.poll_of_mem call hcall).not_panic,
    fun call hcall hlen => (h.poll_of_mem call hcall).starved_iff hlen (hmaxs call hcall),
    fun len hlen => ⟨fun hnever => ?_, fun hrepaid p hp hstarved => ?_⟩, hwrites.not_starved⟩
  · -- a poll that completes shows the debt
    obtain ⟨p, hp, hready⟩ := @exists_write ε s len
    have hrepaid : ¬(s.bps ≠ 0 ∧ s.balance + s.bps ≤ 0) := fun hdebt =>
      hnever p hp ((hp.starved_iff hlen hmax).mpr ⟨hready, hdebt⟩)
    omega
  · obtain ⟨_, hon, hdebt⟩ := (hp.starved_iff hlen hmax).mp hstarved
    omega

/-- Ten bytes, with the limiter off. -/
def unlimitedWrite : Call Unit :=
  ⟨⟨0, false, 0⟩, 10, ⟨0, ⟨0, false, 0⟩, some 10, ⟨0, false, -10⟩, .ready (.ok 10)⟩⟩

/-- Three bytes after that, with a limit of five bytes per second. -/
def limitedWrite : Call Unit :=
  ⟨⟨5, false, -10⟩, 3, ⟨5, ⟨5, false, -5⟩, some 0, ⟨5, false, -5⟩, .ready (.ok 0)⟩⟩

theorem history_switchedOn :
    History ExactWrites (· ≤ u32Max) 0 [limitedWrite, unlimitedWrite] ⟨5, false, -5⟩ := by
  have hoff : ExactWrites (.new 0) 10 unlimitedWrite.polled :=
    ⟨[], eager, fun _ hturn => absurd hturn List.not_mem_nil, honest_eager, rfl⟩
  have hon : ExactWrites ⟨5, false, -10⟩ 3 limitedWrite.polled :=
    ⟨[readyTurn 5, readyTurn 5], eager, by simp [exact_readyTurn], honest_eager, rfl⟩
  have hswitched : History ExactWrites (· ≤ u32Max) 0 [unlimitedWrite] (setBps ⟨0, false, -10⟩ 5) :=
    .setBps (.poll .new hoff) (by decide)
  exact .poll hswitched hon

theorem starved_after_switching_on :
    ∃ (calls : List (Call Unit)) (s : Throttled), History ExactWrites (· ≤ u32Max) 0 calls s ∧
      ∃ call ∈ calls, 0 < call.len ∧ call.polled.Starved :=
  ⟨_, _, history_switchedOn, limitedWrite, List.mem_cons_self, by decide, rfl,
    fun _ hk => (Option.some.inj hk).symm⟩

theorem starved_iff_in_debt_switchedOn : limitedWrite.polled.Starved :=
  ((starved_iff_in_debt (by decide) history_switchedOn).2.1 _ List.mem_cons_self (by decide)).mpr
    ⟨⟨0, rfl⟩, by decide, by decide⟩

/-- With a fixed limit a stream never writes more than it has acquired, and never reads more than that
and the limit. -/
theorem throttle_accounting {limit : Nat} (hon : limit ≠ 0) (hmax : limit ≤ u32Max) :
    (∀ (calls : List (Call ε)) (s : Throttled), History Writes (fun _ => False) limit calls s →
      s.balance = acquired calls - transferred calls ∧ 0 ≤ s.balance ∧
      transferred calls ≤ acquired calls) ∧
    ∀ (calls : List (Call ε)) (s : Throttled), History Reads (fun _ => False) limit calls s →
      -limit ≤ s.balance ∧
      (∀ call ∈ calls, call.polled.handed.isSome = true → 0 ≤ call.polled.reserved.balance) ∧
      transferred calls ≤ acquired calls + limit := by
  refine ⟨fun calls s h => ?_, fun calls s h => ?_⟩
  · have hlimit : ∀ call ∈ calls, call.before.bps ≠ 0 := fun call hcall => by
      rw [h.bps_eq.2 call hcall]
      exact hon
    obtain ⟨hbalance, hnonneg⟩ := h.write_account hlimit
    exact ⟨hbalance, hnonneg, by omega⟩
  · obtain ⟨_, hbalance, hdebt, hpolled⟩ := h.read_account hon hmax
    exact ⟨hdebt, hpolled, by omega⟩

/-- Three bytes without credits. -/
def firstRead : Call Unit :=
  ⟨⟨5, false, 0⟩, 3, ⟨0, ⟨5, false, 0⟩, some 3, ⟨5, false, -3⟩, .ready (.ok 3)⟩⟩

/-- Three more, once those of the first are paid for. -/
def secondRead : Call Unit :=
  ⟨⟨5, false, -3⟩, 3, ⟨3, ⟨5, false, 0⟩, some 3, ⟨5, false, -3⟩, .ready (.ok 3)⟩⟩

theorem history_reads :
    History Reads (fun _ => False) 5 [secondRead, firstRead] ⟨5, false, -3⟩ := by
  have hfull : ∀ len n, @eager Unit len = .ready (.ok n) → n ≤ len := fun len n h => by
    cases h
    exact Nat.le_refl len
  have hfirst : Reads (.new 5) 3 firstRead.polled :=
    ⟨[], eager, fun _ hturn => absurd hturn List.not_mem_nil, hfull, rfl⟩
  have hsecond : Reads ⟨5, false, -3⟩ 3 secondRead.polled :=
    ⟨[readyTurn 5], eager, by simp [(exact_readyTurn 5).sound], hfull, rfl⟩
  exact .poll (.poll .new hfirst) hsecond

theorem throttle_accounting_five :
    transferred [secondRead, firstRead] ≤ acquired [secondRead, firstRead] + 5 :=
  ((@throttle_accounting Unit 5 (by decide) (by decide)).2 _ _ history_reads).2.2

end Rpc
end Wcn
