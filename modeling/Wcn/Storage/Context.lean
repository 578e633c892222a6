import Wcn.Lib.Records
import Wcn.StorageApi

/-!
# Wcn.Storage.Context

The record stored under a key (`DataContext`) and the operands RocksDB merges into it
(`MergeOp`), as `crates/rocks/src/db/context.rs` has them. Timestamps are only ever compared, so
they are `Nat`: versions in microseconds, expirations in seconds. The clock that `MergeOp::del`
reads is an argument.

Two case tables decide everything: `MergeOpKind.merge` combines two operands, and
`DataContext.apply` applies one operand to a record. Both sit behind the same stale-timestamp
guard (`latest_merge`, `latest_context`).
-/

namespace Wcn
namespace Storage

open Lib

inductive Payload (T : Type) where
  | none
  | some (data : T)
  deriving DecidableEq, Repr

namespace Payload

def asOption {T : Type} : Payload T → Option T
  | .none => Option.none
  | .some data => Option.some data

end Payload

inductive MergeOpKind (T : Type) where
  | set (value : T) (expiration : Nat)
  | setVal (value : T)
  | setExp (expiration : Nat)
  | del (expiration : Nat)
  deriving DecidableEq, Repr

structure MergeOp (T : Type) where
  kind : MergeOpKind T
  timestamp : Nat
  deriving DecidableEq, Repr

/-- For how long the mark of a deleted record stays in the database: a day. -/
def lingerSecs : Nat := 24 * 60 * 60

namespace MergeOp

variable {T : Type}

def set (value : T) (expiration : Nat) (timestamp : Nat) :
    MergeOp T :=
  ⟨.set value expiration, timestamp⟩

def setVal (value : T) (timestamp : Nat) : MergeOp T :=
  ⟨.setVal value, timestamp⟩

def setExp (expiration : Nat) (timestamp : Nat) : MergeOp T :=
  ⟨.setExp expiration, timestamp⟩

/-- `now` is the local clock when the operand is built. -/
def del (now : Nat) (timestamp : Nat) : MergeOp T :=
  ⟨.del (now + lingerSecs), timestamp⟩

end MergeOp

/-- What an operand of the second kind leaves of one of the first kind. -/
def MergeOpKind.merge {T : Type} : MergeOpKind T → MergeOpKind T → MergeOpKind T
  | _, .set value expiration => .set value expiration
  | _, .del expiration => .del expiration
  | .setVal _, .setVal value => .setVal value
  | .setExp _, .setExp expiration => .setExp expiration
  | .set _ expiration, .setVal value => .set value expiration
  | .set value _, .setExp expiration => .set value expiration
  | .setVal value, .setExp expiration => .set value expiration
  | .setExp expiration, .setVal value => .set value expiration
  | .del expiration, .setVal _ => .del expiration
  | .del expiration, .setExp _ => .del expiration

/-- `Merge<Self> for MergeOp<T>`. -/
def MergeOp.merge {T : Type} (self input : MergeOp T) : MergeOp T :=
  if input.timestamp ≤ self.timestamp then
    self
  else
    { kind := self.kind.merge input.kind, timestamp := input.timestamp }

structure DataContext (T : Type) where
  /-- Absent when the context was created by merging into a missing key, or by a deletion. -/
  payload : Payload T
  expires : Nat
  updated : Option Nat
  created : Nat
  deriving DecidableEq, Repr

namespace DataContext

variable {T : Type}

/-- `DataContext::default()`. -/
def default : DataContext T := ⟨.none, 0, none, 0⟩

/-- The version of a record: its last modification time, else its creation time. -/
def version (self : DataContext T) : Nat := self.updated.getD self.created

/-- The effect of an operand that passed the timestamp check. -/
def apply (self : DataContext T) (op : MergeOp T) : DataContext T :=
  match op.kind with
  | .set value expiration =>
    { self with payload := .some value, expires := expiration, updated := some op.timestamp }
  | .setVal value => { self with payload := .some value, updated := some op.timestamp }
  | .setExp expiration => { self with expires := expiration, updated := some op.timestamp }
  | .del expiration =>
    { self with payload := .none, expires := expiration, updated := some op.timestamp }

/-- `Merge<MergeOp<T>> for DataContext<T>`. -/
def merge (self : DataContext T) (op : MergeOp T) : DataContext T :=
  if op.timestamp ≤ self.version then self else self.apply op

/-- `DataContext::expired`, at local time `now`. -/
def expired (self : DataContext T) (now : Nat) : Bool := self.expires ≤ now

/-- `DataContext::into_payload`, at local time `now`. -/
def intoPayload (self : DataContext T) (now : Nat) : Option T :=
  if self.expired now then none else self.payload.asOption

/-- What `StringStorage::get` and `MapStorage::hget` make of the context under a key. The record type
of the `rocks` crate has the fields of the one of the Storage API. -/
def readRecord (self : DataContext T) (now : Nat) : Option (StorageApi.Record T) :=
  (self.intoPayload now).map fun value => ⟨value, self.expires, self.version⟩

/-- `From<DataContext<T>> for MergeOp<T>`: what an exported record is imported as. -/
def toMergeOp (self : DataContext T) (now : Nat) : MergeOp T :=
  match self.payload with
  | .some value => .set value self.expires self.version
  | .none => .del now self.version

@[simp] theorem version_default : (default : DataContext T).version = 0 := rfl

@[simp] theorem version_apply (self : DataContext T) (op : MergeOp T) :
    (self.apply op).version = op.timestamp := by
  obtain ⟨kind, ts⟩ := op
  cases kind <;> rfl

theorem readRecord_eq_none {self : DataContext T} {now : Nat} :
    self.readRecord now = none ↔ self.expires ≤ now ∨ self.payload = .none := by
  obtain ⟨payload, expires, updated, created⟩ := self
  by_cases hexpired : expires ≤ now
  · simp [readRecord, intoPayload, expired, hexpired]
  · cases payload <;> simp [readRecord, intoPayload, expired, hexpired, Payload.asOption]

theorem merge_stale {self : DataContext T} {op : MergeOp T} (h : op.timestamp ≤ self.version) :
    self.merge op = self := by
  simp [merge, h]

theorem merge_fresh {self : DataContext T} {op : MergeOp T} (h : self.version < op.timestamp) :
    self.merge op = self.apply op := by
  simp [merge, Nat.not_le.mpr h]

@[simp] theorem toMergeOp_timestamp (self : DataContext T) (now : Nat) :
    (self.toMergeOp now).timestamp = self.version := by
  unfold toMergeOp
  split <;> rfl

end DataContext

namespace MergeOp

variable {T : Type}

theorem merge_stale {self input : MergeOp T} (h : input.timestamp ≤ self.timestamp) :
    self.merge input = self := by
  simp [merge, h]

theorem merge_fresh {self input : MergeOp T} (h : self.timestamp < input.timestamp) :
    self.merge input = ⟨self.kind.merge input.kind, input.timestamp⟩ := by
  simp [merge, Nat.not_le.mpr h]

theorem latest_merge :
    Latest (MergeOp.timestamp (T := T)) MergeOp.timestamp MergeOp.merge where
  stale _ _ h := merge_stale h
  fresh _ _ h := by rw [merge_fresh h]

end MergeOp

theorem DataContext.latest_context {T : Type} :
    Latest (MergeOp.timestamp (T := T)) DataContext.version DataContext.merge where
  stale _ _ h := merge_stale h
  fresh _ _ h := by rw [merge_fresh h, version_apply]

/-- What `SameRecord` compares: payload, expiration and version. The creation time of a record is
never read back, and `updated` only through the version. -/
structure SameRecord {T : Type} (a b : DataContext T) : Prop where
  payload : a.payload = b.payload
  expires : a.expires = b.expires
  version : a.version = b.version

theorem SameRecord.of_eq {T : Type} {a b : DataContext T} (h : a = b) : SameRecord a b := by
  subst h; exact ⟨rfl, rfl, rfl⟩

theorem SameRecord.trans {T : Type} {a b c : DataContext T} (h : SameRecord a b)
    (h' : SameRecord b c) : SameRecord a c :=
  ⟨h.payload.trans h'.payload, h.expires.trans h'.expires, h.version.trans h'.version⟩

instance {T : Type} [DecidableEq T] (a b : DataContext T) : Decidable (SameRecord a b) :=
  decidable_of_iff (a.payload = b.payload ∧ a.expires = b.expires ∧ a.version = b.version)
    ⟨fun h => ⟨h.1, h.2.1, h.2.2⟩, fun h => ⟨h.1, h.2, h.3⟩⟩

/-! ## The merge operator -/

variable {T : Type}

/-- `AsymmetricMerge::partial_merge`: the first operand takes in the others, in order. Fails
without operands. -/
def partialMerge : List (MergeOp T) → Option (MergeOp T)
  | [] => none
  | output :: input => some (input.foldl MergeOp.merge output)

/-- `AsymmetricMerge::full_merge`: the stored record, or the default one, takes in the operands. -/
def fullMerge (output : Option (DataContext T)) (input : List (MergeOp T)) : DataContext T :=
  input.foldl DataContext.merge (output.getD .default)

theorem fullMerge_append (output : Option (DataContext T)) (l₁ l₂ : List (MergeOp T)) :
    fullMerge output (l₁ ++ l₂) = l₂.foldl DataContext.merge (fullMerge output l₁) := by
  simp [fullMerge, List.foldl_append]

theorem version_fullMerge (output : Option (DataContext T)) (input : List (MergeOp T)) :
    (fullMerge output input).version =
      latest MergeOp.timestamp (output.getD .default).version input :=
  DataContext.latest_context.held_foldl _ _

/-- Up to its newest operand the merge is arbitrary; that operand is applied, and everything
after it is dropped. -/
theorem fullMerge_newest {output : Option (DataContext T)} {before after : List (MergeOp T)}
    {m : MergeOp T}
    (h : Newest MergeOp.timestamp (output.getD .default).version before m after) :
    fullMerge output (before ++ m :: after) = (fullMerge output before).apply m := by
  have hlt : (fullMerge output before).version < m.timestamp := by
    rw [version_fullMerge]
    exact latest_lt _ h.start h.before
  rw [fullMerge_append, List.foldl_cons, DataContext.merge_fresh hlt]
  exact DataContext.latest_context.foldl_stale (by simpa using h.after)

/-- Operands no newer than the record leave it alone. -/
theorem fullMerge_stale {output : Option (DataContext T)} {input : List (MergeOp T)}
    (h : ∀ o ∈ input, o.timestamp ≤ (output.getD .default).version) :
    fullMerge output input = output.getD .default :=
  DataContext.latest_context.foldl_stale h

/-! ## Redelivery -/

/-- Operands that come again, at any time after they first came, change nothing. The version is the
greatest timestamp seen, the ignored ones included. -/
theorem redelivery_harmless (start : DataContext T) {ops ops' : List (MergeOp T)}
    (h : Redelivery ops ops') :
    ops'.foldl DataContext.merge start = ops.foldl DataContext.merge start ∧
    (ops.foldl DataContext.merge start).version =
      (ops.map MergeOp.timestamp).foldl max start.version := by
  refine ⟨DataContext.latest_context.foldl_redelivery h start, ?_⟩
  rw [DataContext.latest_context.held_foldl, latest, List.foldl_map]

/-- A `Set` that comes again after a `Del` with the same timestamp and a later `SetExp`. -/
theorem redelivery_harmless_set :
    [.set 1 50 5, .del 0 5, .setExp 60 8, .set 1 50 5].foldl DataContext.merge
        (.default : DataContext Nat) =
      [.set 1 50 5, .del 0 5, .setExp 60 8].foldl DataContext.merge .default :=
  let ops : List (MergeOp Nat) := [.set 1 50 5, .del 0 5, .setExp 60 8]
  have hagain : Redelivery ops (ops ++ .set 1 50 5 :: []) := .again .refl (by decide)
  (redelivery_harmless .default hagain).1

end Storage
end Wcn
