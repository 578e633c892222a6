import Wcn.Lib.Outcomes
import Wcn.Cluster.View

/-!
# Wcn.Cluster.Settings

Cluster settings and the instants they define.

* `OffsetDateTime` — an instant the source can represent, in nanoseconds since the Unix epoch.
  Arithmetic that leaves the range panics.
* `hasEventPropagated`, `clockSkewTimeFrame` — with the reading of the clock as a parameter.
-/

namespace Wcn
namespace Cluster

open Lib

/-- What the code that reads a view can panic with. -/
inductive Panic where
  /-- Adding to or subtracting from a time. -/
  | timeOutOfRange
  /-- `unreachable!()` in `calculate_shards`. -/
  | unreachable
  /-- `shards[shard_id]`. -/
  | indexOutOfBounds
  /-- `get_by_idx(idx).unwrap()`. -/
  | unknownOperator
deriving DecidableEq

/-- `std::time::Duration`, in nanoseconds. -/
abbrev Duration := Nat

namespace Duration

def fromSecs (secs : Nat) : Duration := secs * 10 ^ 9

def fromMillis (millis : Nat) : Duration := millis * 10 ^ 6

end Duration

/-! ## Instants -/

/-- The first instant of the year -9999. -/
def minNanos : Int := -377705116800 * 10 ^ 9

/-- The last instant of the year 9999. -/
def maxNanos : Int := Migration.maxTimestamp * 10 ^ 9 + 999999999

structure OffsetDateTime where
  nanos : Int
  min_le : minNanos ≤ nanos
  le_max : nanos ≤ maxNanos

namespace OffsetDateTime

def ofNanos (nanos : Int) : Except Panic OffsetDateTime :=
  if h : minNanos ≤ nanos ∧ nanos ≤ maxNanos then .ok ⟨nanos, h.1, h.2⟩ else .error .timeOutOfRange

def add (time : OffsetDateTime) (duration : Duration) : Except Panic OffsetDateTime :=
  ofNanos (time.nanos + duration)

def sub (time : OffsetDateTime) (duration : Duration) : Except Panic OffsetDateTime :=
  ofNanos (time.nanos - duration)

/-- The instant of a timestamp in a view. Those of views that were built are in range. -/
def fromUnixTimestamp (timestamp : Nat) : Except Panic OffsetDateTime :=
  ofNanos (Duration.fromSecs timestamp)

theorem ofNanos_eq_ok {nanos : Int} {time : OffsetDateTime} :
    ofNanos nanos = .ok time ↔ time.nanos = nanos := by
  obtain ⟨nanos', hmin, hmax⟩ := time
  unfold ofNanos
  split_ifs with h
  · simp [eq_comm]
  · refine iff_of_false (by simp) ?_
    rintro rfl
    exact h ⟨hmin, hmax⟩

theorem ofNanos_of_gt {nanos : Int} (h : maxNanos < nanos) :
    ofNanos nanos = .error .timeOutOfRange := by
  unfold ofNanos
  rw [dif_neg]
  omega

end OffsetDateTime

/-! ## Settings -/

structure Settings where
  maxNodeOperatorDataBytes : UInt16
  eventPropagationLatency : Duration
  clockSkew : Duration
  migrationConcurrency : UInt16
  migrationTxBandwidth : UInt32
  migrationRxBandwidth : UInt32
deriving DecidableEq

namespace Settings

def default : Settings where
  maxNodeOperatorDataBytes := 4096
  eventPropagationLatency := .fromSecs 5
  clockSkew := .fromMillis 500
  migrationConcurrency := 10
  migrationTxBandwidth := 10000000
  migrationRxBandwidth := 10000000

def eventPropagationTime (self : Settings) (emittedAt : OffsetDateTime) :
    Except Panic OffsetDateTime :=
  emittedAt.add self.eventPropagationLatency

def hasEventPropagated (self : Settings) (emittedAt now : OffsetDateTime) : Except Panic Bool := do
  let time ← self.eventPropagationTime emittedAt
  .ok (decide (time.nanos ≤ now.nanos))

def clockSkewTimeFrame (self : Settings) (time : OffsetDateTime) :
    Except Panic (OffsetDateTime × OffsetDateTime) := do
  let start ← time.sub self.clockSkew
  let finish ← time.add self.clockSkew
  .ok (start, finish)

end Settings

end Cluster
end Wcn
