import Mathlib

/-!
# Wcn.Lib.ResultStreams

Streams of results, and what the usual adapters of iterators make of the errors in them.

* `mapOk`, `filterMapOk` — work on the values and pass errors on.
* `flatten` — nothing is left of an error. After `mapOk` or `filterMapOk` with a function that can
  fail itself, only the errors of that function are left (`flatten_mapOk`, `flatten_filterMapOk`).
* `collect` — the values, or the first error (`collect_eq_error_iff`).
* `ErrorWithin` — for readers that stop after a number of values.
-/

namespace Wcn
namespace Lib

variable {ε ε' α β : Type}

def mapOk (f : α → β) (stream : List (Except ε α)) : List (Except ε β) := stream.map (·.map f)

def filterMapOk (f : α → Option β) (stream : List (Except ε α)) : List (Except ε β) :=
  stream.filterMap fun
    | .ok a => (f a).map .ok
    | .error e => some (.error e)

/-- A result counts as a collection of at most one value. -/
def flatten (stream : List (Except ε α)) : List α := stream.filterMap Except.toOption

def collect : List (Except ε α) → Except ε (List α)
  | [] => .ok []
  | .error e :: _ => .error e
  | .ok a :: stream => (collect stream).map (a :: ·)

theorem flatten_mapOk (f : α → β) (stream : List (Except ε α)) :
    flatten (mapOk f stream) = (flatten stream).map f := by
  rw [flatten, mapOk, List.filterMap_map, flatten, List.map_filterMap]
  refine List.filterMap_congr fun item _ => ?_
  cases item <;> rfl

theorem flatten_filterMapOk (f : α → Option β) (stream : List (Except ε α)) :
    flatten (filterMapOk f stream) = (flatten stream).filterMap f := by
  rw [flatten, filterMapOk, List.filterMap_filterMap, flatten, List.filterMap_filterMap]
  refine List.filterMap_congr fun item _ => ?_
  cases item with
  | error e => rfl
  | ok a => cases h : f a <;> simp [h, Except.toOption]

/-- Errors of another kind are dropped just as well. -/
theorem flatten_mapError (f : ε → ε') (stream : List (Except ε α)) :
    flatten (stream.map (·.mapError f)) = flatten stream := by
  rw [flatten, List.filterMap_map, flatten]
  refine List.filterMap_congr fun item _ => ?_
  cases item <;> rfl

theorem mem_flatten {stream : List (Except ε α)} {a : α} : a ∈ flatten stream ↔ .ok a ∈ stream := by
  rw [flatten, List.mem_filterMap]
  constructor
  · rintro ⟨item, hitem, ha⟩
    cases item with
    | error e => cases ha
    | ok b =>
      cases ha
      exact hitem
  · exact fun h => ⟨.ok a, h, rfl⟩

theorem collect_eq_error_iff {stream : List (Except ε α)} :
    (∃ e, collect stream = .error e) ↔ ∃ e, .error e ∈ stream := by
  induction stream with
  | nil => simp [collect]
  | cons item stream ih =>
    cases item with
    | error e => exact ⟨fun _ => ⟨e, List.mem_cons_self⟩, fun _ => ⟨e, rfl⟩⟩
    | ok a =>
      have hmem : (∃ e, (.error e : Except ε α) ∈ .ok a :: stream) ↔ ∃ e, .error e ∈ stream := by
        simp
      rw [hmem, ← ih, collect]
      cases collect stream <;> simp [Except.map]

theorem collect_map_ok (l : List α) : collect (l.map (.ok : α → Except ε α)) = .ok l := by
  induction l with
  | nil => rfl
  | cons a l ih =>
    rw [List.map_cons, collect, ih]
    rfl

/-- There is an error among the first items. -/
def ErrorWithin (limit : Nat) (stream : List (Except ε α)) : Prop :=
  ∃ before e after, stream = before ++ .error e :: after ∧ before.length < limit

theorem errorWithin_cons_error (limit : Nat) (e : ε) (stream : List (Except ε α)) :
    ErrorWithin (limit + 1) (.error e :: stream) :=
  ⟨[], e, stream, rfl, limit.succ_pos⟩

theorem errorWithin_cons_ok {limit : Nat} {a : α} {stream : List (Except ε α)} :
    ErrorWithin (limit + 1) (.ok a :: stream) ↔ ErrorWithin limit stream := by
  constructor
  · rintro ⟨before, e, after, heq, hlt⟩
    cases before with
    | nil => cases heq
    | cons item before =>
      cases heq
      exact ⟨before, e, after, rfl, Nat.lt_of_succ_lt_succ hlt⟩
  · rintro ⟨before, e, after, rfl, hlt⟩
    exact ⟨.ok a :: before, e, after, rfl, Nat.succ_lt_succ hlt⟩

theorem not_errorWithin_nil {limit : Nat} : ¬ ErrorWithin limit ([] : List (Except ε α)) := by
  rintro ⟨before, e, after, heq, _⟩
  simp at heq

theorem not_errorWithin_zero {stream : List (Except ε α)} : ¬ ErrorWithin 0 stream := by
  rintro ⟨before, e, after, _, hlt⟩
  exact Nat.not_lt_zero _ hlt

end Lib
end Wcn
