import Wcn.Lib.Outcomes

/-!
# Wcn.Lib.EventLog

Replicas of a state that changes by numbered events, for arbitrary views and events.

* `Numbered number first log` — the events of the log carry consecutive numbers from `first` on.
* `between number lo hi log` — the events with a number above `lo`, up to `hi`.
* `Derived` — a view is what the events between two versions make of another view.
* `Derived.self`, `Derived.next`, `Derived.append` — a view is derived from itself, applying the
  event of the next number to a derived view keeps it so, and so does a growing log.
-/

namespace Wcn
namespace Lib

variable {E V ε : Type}

/-! ## Numbered logs -/

section Between

variable {number : E → Nat} {first lo hi : Nat} {log : List E} {e : E}

def Numbered (number : E → Nat) (first : Nat) (log : List E) : Prop :=
  log.map number = List.range' first log.length

def between (number : E → Nat) (lo hi : Nat) (log : List E) : List E :=
  log.filter fun e => decide (lo < number e ∧ number e ≤ hi)

theorem Numbered.append (h : Numbered number first log) (he : number e = first + log.length) :
    Numbered number first (log ++ [e]) := by
  rw [Numbered, List.map_append, h, List.length_append, List.length_singleton, List.range'_concat,
    List.map_singleton, he, Nat.one_mul]

theorem Numbered.bounds (h : Numbered number first log) (he : e ∈ log) :
    first ≤ number e ∧ number e < first + log.length := by
  have hmem : number e ∈ log.map number := List.mem_map_of_mem he
  rw [h, List.mem_range'_1] at hmem
  exact hmem

theorem Numbered.sorted (h : Numbered number first log) :
    log.Pairwise fun a b => number a < number b := by
  rw [← List.pairwise_map, h]
  exact List.pairwise_lt_range'

theorem between_self : between number lo lo log = [] := by
  refine List.filter_eq_nil_iff.mpr fun e _ => ?_
  rw [decide_eq_true_eq]
  omega

theorem between_append (h : hi < number e) :
    between number lo hi (log ++ [e]) = between number lo hi log := by
  rw [between, between, List.filter_append, List.filter_singleton]
  have hnot : ¬ (lo < number e ∧ number e ≤ hi) := by omega
  simp [hnot]

theorem between_succ (h : Numbered number first log) (he : e ∈ log) (hnext : number e = hi + 1)
    (hle : lo ≤ hi) : between number lo (hi + 1) log = between number lo hi log ++ [e] := by
  obtain ⟨before, after, rfl⟩ := List.append_of_mem he
  have hsorted := h.sorted
  rw [List.pairwise_append, List.pairwise_cons] at hsorted
  obtain ⟨_, ⟨hafter, _⟩, hbefore⟩ := hsorted
  -- events before `e` are at most `hi`, those after it are above `hi + 1`
  have hsame : before.filter (fun a => decide (lo < number a ∧ number a ≤ hi + 1)) =
      before.filter fun a => decide (lo < number a ∧ number a ≤ hi) := by
    refine List.filter_congr fun a ha => ?_
    have hlt := hbefore a ha e List.mem_cons_self
    rw [decide_eq_decide]
    omega
  have hnone : ∀ {bound : Nat}, bound ≤ hi + 1 →
      after.filter (fun a => decide (lo < number a ∧ number a ≤ bound)) = [] := by
    intro bound hbound
    refine List.filter_eq_nil_iff.mpr fun a ha => ?_
    have hlt := hafter a ha
    rw [decide_eq_true_eq]
    omega
  have hin : lo < number e ∧ number e ≤ hi + 1 := by omega
  have hout : ¬ (lo < number e ∧ number e ≤ hi) := by omega
  rw [between, between, List.filter_append, List.filter_append, hsame, List.filter_cons,
    List.filter_cons, if_pos (decide_eq_true hin), if_neg (decide_eq_true_iff.not.mpr hout),
    hnone (Nat.le_refl _), hnone (Nat.le_succ _), List.append_nil]

/-- The events between two versions carry exactly the numbers between them, each once and in
order. -/
theorem map_between (h : Numbered number first log) (hlo : first ≤ lo + 1)
    (hhi : hi < first + log.length) :
    (between number lo hi log).map number = List.range' (lo + 1) (hi - lo) := by
  have hsorted : ((between number lo hi log).map number).Pairwise (· < ·) :=
    List.pairwise_map.mpr (h.sorted.filter _)
  refine List.Pairwise.eq_of_mem_iff hsorted List.pairwise_lt_range' fun n => ?_
  have hmem : n ∈ log.map number ↔ first ≤ n ∧ n < first + log.length := by
    rw [h, List.mem_range'_1]
  simp only [List.mem_map] at hmem
  simp only [between, List.mem_map, List.mem_filter, decide_eq_true_eq, List.mem_range'_1]
  constructor
  · rintro ⟨e, ⟨_, hrange⟩, rfl⟩
    omega
  · intro hn
    obtain ⟨e, he, rfl⟩ := hmem.mpr (by omega)
    exact ⟨e, ⟨he, by omega⟩, rfl⟩

end Between

/-! ## Derived views -/

/-- An event is accepted only by the view right before it. -/
def Sequenced (apply : V → E → Except ε V) (version : V → Nat) (number : E → Nat) : Prop :=
  ∀ {v e v'}, apply v e = .ok v' → number e = version v + 1 ∧ version v' = number e

structure Derived (apply : V → E → Except ε V) (version : V → Nat) (number : E → Nat)
    (log : List E) (v₀ v : V) : Prop where
  le : version v₀ ≤ version v
  replays : (between number (version v₀) (version v) log).foldlM apply v₀ = .ok v

section Derived

variable {apply : V → E → Except ε V} {version : V → Nat} {number : E → Nat} {log : List E}
  {v₀ v v' : V} {e : E}

theorem Derived.self : Derived apply version number log v v :=
  ⟨Nat.le_refl _, by rw [between_self]; rfl⟩

theorem Derived.append (h : Derived apply version number log v₀ v) (he : version v < number e) :
    Derived apply version number (log ++ [e]) v₀ v :=
  ⟨h.le, by rw [between_append he]; exact h.replays⟩

theorem Derived.next {first : Nat} (hseq : Sequenced apply version number)
    (hlog : Numbered number first log) (h : Derived apply version number log v₀ v) (he : e ∈ log)
    (happly : apply v e = .ok v') : Derived apply version number log v₀ v' := by
  obtain ⟨hnext, hversion⟩ := hseq happly
  have hle := h.le
  refine ⟨by omega, ?_⟩
  rw [hversion, hnext, between_succ hlog he hnext hle, List.foldlM_append, bind_eq_ok]
  refine ⟨v, h.replays, ?_⟩
  rw [List.foldlM_cons, happly]
  rfl

/-- What no event changes is the same in a derived view. -/
theorem Derived.unchanged {α : Type} {f : V → α}
    (hf : ∀ {v e v'}, apply v e = .ok v' → f v' = f v) (h : Derived apply version number log v₀ v) :
    f v = f v₀ := by
  have hfold : ∀ {events : List E} {v₀ : V}, events.foldlM apply v₀ = .ok v → f v = f v₀ := by
    intro events
    induction events with
    | nil =>
      intro v₀ h
      cases h
      rfl
    | cons e events ih =>
      intro v₀ h
      rw [List.foldlM_cons, bind_eq_ok] at h
      obtain ⟨v₁, hfirst, hrest⟩ := h
      rw [ih hrest, hf hfirst]
  exact hfold h.replays

end Derived

end Lib
end Wcn
