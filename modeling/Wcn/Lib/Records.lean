import Mathlib.Data.List.Basic
import Mathlib.Order.Lattice

/-!
# Wcn.Lib.Records

Stamped updates fed to a register that drops everything not newer than what it holds.

* `latest stamp t l`  — the stamp the register holds after `l`, started at stamp `t`.
* `records stamp t l` — the updates of `l` that get through: each is newer than `t` and than
  every update before it.
* `Latest` — a fold step that keeps its state on stale updates; `Latest.foldl_records` says such
  a fold only sees the records.
* `Redelivery` — repeating updates after the first time changes nothing.
* `splitNewest` — the first update carrying the greatest stamp above `t`, with what stands
  before and after it.

Nothing here knows what an update does; the storage modules instantiate `stamp` and the step.
-/

namespace Wcn
namespace Lib

variable {α : Type*} {σ : Type*}

/-- The stamp held after feeding `l` to a register that holds stamp `t`. -/
def latest (stamp : α → Nat) (t : Nat) (l : List α) : Nat :=
  l.foldl (fun t a => max t (stamp a)) t

/-- The updates of `l` newer than `t` and than every update before them. -/
def records (stamp : α → Nat) : Nat → List α → List α
  | _, [] => []
  | t, a :: l => if t < stamp a then a :: records stamp (stamp a) l else records stamp t l

section Latest

variable (stamp : α → Nat)

@[simp] theorem latest_nil (t : Nat) : latest stamp t [] = t := rfl

@[simp] theorem latest_cons (t : Nat) (a : α) (l : List α) :
    latest stamp t (a :: l) = latest stamp (max t (stamp a)) l := rfl

@[simp] theorem latest_append (t : Nat) (l₁ l₂ : List α) :
    latest stamp t (l₁ ++ l₂) = latest stamp (latest stamp t l₁) l₂ := by
  simp [latest, List.foldl_append]

theorem le_latest (t : Nat) (l : List α) : t ≤ latest stamp t l := by
  induction l generalizing t with
  | nil => exact Nat.le_refl t
  | cons a l ih => exact Nat.le_trans (Nat.le_max_left t (stamp a)) (ih _)

theorem stamp_le_latest {t : Nat} {l : List α} {a : α} (h : a ∈ l) : stamp a ≤ latest stamp t l := by
  induction l generalizing t with
  | nil => cases h
  | cons b l ih =>
    rcases List.mem_cons.mp h with rfl | h
    · exact Nat.le_trans (Nat.le_max_right t (stamp a)) (le_latest stamp _ l)
    · exact ih h

theorem latest_lt {t n : Nat} {l : List α} (ht : t < n) (hl : ∀ a ∈ l, stamp a < n) :
    latest stamp t l < n := by
  induction l generalizing t with
  | nil => exact ht
  | cons a l ih =>
    exact ih (Nat.max_lt.mpr ⟨ht, hl a (by simp)⟩) fun b hb => hl b (by simp [hb])

end Latest

section Records

variable (stamp : α → Nat)

@[simp] theorem records_nil (t : Nat) : records stamp t [] = [] := rfl

theorem records_cons_new {t : Nat} {a : α} (h : t < stamp a) (l : List α) :
    records stamp t (a :: l) = a :: records stamp (stamp a) l := by
  simp [records, h]

theorem records_cons_stale {t : Nat} {a : α} (h : stamp a ≤ t) (l : List α) :
    records stamp t (a :: l) = records stamp t l := by
  simp [records, Nat.not_lt.mpr h]

theorem records_append (t : Nat) (l₁ l₂ : List α) :
    records stamp t (l₁ ++ l₂) = records stamp t l₁ ++ records stamp (latest stamp t l₁) l₂ := by
  induction l₁ generalizing t with
  | nil => rfl
  | cons a l₁ ih =>
    rcases Nat.lt_or_ge t (stamp a) with h | h
    · rw [List.cons_append, records_cons_new stamp h, records_cons_new stamp h, ih,
        latest_cons, Nat.max_eq_right (Nat.le_of_lt h), List.cons_append]
    · rw [List.cons_append, records_cons_stale stamp h, records_cons_stale stamp h, ih,
        latest_cons, Nat.max_eq_left h]

theorem records_sublist (t : Nat) (l : List α) : (records stamp t l).Sublist l := by
  induction l generalizing t with
  | nil => exact .slnil
  | cons a l ih =>
    rcases Nat.lt_or_ge t (stamp a) with h | h
    · rw [records_cons_new stamp h]; exact (ih _).cons_cons a
    · rw [records_cons_stale stamp h]; exact (ih t).cons a

theorem records_eq_nil {t : Nat} {l : List α} (h : ∀ a ∈ l, stamp a ≤ t) :
    records stamp t l = [] := by
  induction l with
  | nil => rfl
  | cons a l ih =>
    rw [records_cons_stale stamp (h a (by simp))]
    exact ih fun b hb => h b (by simp [hb])

end Records

/-- A fold step over states that carry a stamp: stale updates leave the state alone, the others
advance it to their own stamp. -/
structure Latest (stamp : α → Nat) (held : σ → Nat) (step : σ → α → σ) : Prop where
  stale : ∀ s a, stamp a ≤ held s → step s a = s
  fresh : ∀ s a, held s < stamp a → held (step s a) = stamp a

namespace Latest

variable {stamp : α → Nat} {held : σ → Nat} {step : σ → α → σ}

theorem held_step (h : Latest stamp held step) (s : σ) (a : α) :
    held (step s a) = max (held s) (stamp a) := by
  rcases Nat.lt_or_ge (held s) (stamp a) with hlt | hle
  · rw [h.fresh s a hlt, Nat.max_eq_right (Nat.le_of_lt hlt)]
  · rw [h.stale s a hle, Nat.max_eq_left hle]

theorem held_foldl (h : Latest stamp held step) (s : σ) (l : List α) :
    held (l.foldl step s) = latest stamp (held s) l := by
  induction l generalizing s with
  | nil => rfl
  | cons a l ih => rw [List.foldl_cons, ih, h.held_step, latest_cons]

/-- A fold over `l` only ever sees the records of `l`. -/
theorem foldl_records (h : Latest stamp held step) (s : σ) (l : List α) :
    (records stamp (held s) l).foldl step s = l.foldl step s := by
  induction l generalizing s with
  | nil => rfl
  | cons a l ih =>
    rcases Nat.lt_or_ge (held s) (stamp a) with hlt | hle
    · rw [records_cons_new stamp hlt, List.foldl_cons, List.foldl_cons, ← ih,
        h.fresh s a hlt]
    · rw [records_cons_stale stamp hle, List.foldl_cons, h.stale s a hle, ih]

theorem foldl_stale (h : Latest stamp held step) {s : σ} {l : List α}
    (hl : ∀ a ∈ l, stamp a ≤ held s) : l.foldl step s = s := by
  rw [← h.foldl_records, records_eq_nil stamp hl, List.foldl_nil]

end Latest

/-! ## Redelivery -/

/-- `l` with further copies of its updates, each somewhere after the first one. -/
inductive Redelivery (l : List α) : List α → Prop where
  | refl : Redelivery l l
  | again {before after : List α} {a : α} :
      Redelivery l (before ++ after) → a ∈ before → Redelivery l (before ++ a :: after)

/-- By the time an update comes again, the register holds its stamp or a later one. -/
theorem Latest.foldl_redelivery {stamp : α → Nat} {held : σ → Nat} {step : σ → α → σ}
    (h : Latest stamp held step) {l l' : List α} (hl : Redelivery l l') (s : σ) :
    l'.foldl step s = l.foldl step s := by
  induction hl with
  | refl => rfl
  | @again before after a _ hmem ih =>
    have hstale : stamp a ≤ held (before.foldl step s) := by
      rw [h.held_foldl]
      exact stamp_le_latest stamp hmem
    rw [← ih, List.foldl_append, List.foldl_append, List.foldl_cons, h.stale _ _ hstale]

/-- Starting over after a part of the updates changes nothing. -/
theorem Latest.foldl_replay {stamp : α → Nat} {held : σ → Nat} {step : σ → α → σ}
    (h : Latest stamp held step) (done rest : List α) (s : σ) :
    (done ++ rest).foldl step (done.foldl step s) = (done ++ rest).foldl step s := by
  have hstale : ∀ a ∈ done, stamp a ≤ held (done.foldl step s) := fun a ha => by
    rw [h.held_foldl]
    exact stamp_le_latest stamp ha
  rw [List.foldl_append, List.foldl_append, h.foldl_stale hstale]

/-! ## The newest update -/

/-- `m` is newer than `t` and than everything in `before`, and nothing in `after` is newer. -/
structure Newest (stamp : α → Nat) (t : Nat) (before : List α) (m : α) (after : List α) : Prop where
  start : t < stamp m
  before : ∀ a ∈ before, stamp a < stamp m
  after : ∀ a ∈ after, stamp a ≤ stamp m

/-- Splits `l` at the first update carrying the greatest stamp above `t`. -/
def splitNewest (stamp : α → Nat) : Nat → List α → Option (List α × α × List α)
  | _, [] => none
  | t, a :: l =>
    match splitNewest stamp (max t (stamp a)) l with
    | some (before, m, after) => some (a :: before, m, after)
    | none => if t < stamp a then some ([], a, l) else none

section SplitNewest

variable {stamp : α → Nat} {t : Nat} {l before after : List α} {m : α}

theorem splitNewest_none (h : splitNewest stamp t l = none) : ∀ a ∈ l, stamp a ≤ t := by
  induction l generalizing t with
  | nil => simp
  | cons b l ih =>
    simp only [splitNewest] at h
    split at h
    · cases h
    · rename_i hrest
      split at h
      · cases h
      · rename_i hb
        have hle : stamp b ≤ t := Nat.not_lt.mp hb
        rw [Nat.max_eq_left hle] at hrest
        intro a ha
        rcases List.mem_cons.mp ha with rfl | ha
        · exact hle
        · exact ih hrest a ha

theorem splitNewest_some (h : splitNewest stamp t l = some (before, m, after)) :
    l = before ++ m :: after ∧ Newest stamp t before m after := by
  induction l generalizing t before with
  | nil => cases h
  | cons b l ih =>
    simp only [splitNewest] at h
    split at h
    · rename_i before' m' after' hrest
      cases h
      obtain ⟨rfl, hn⟩ := ih hrest
      have hmax := Nat.max_lt.mp hn.start
      refine ⟨rfl, hmax.1, ?_, hn.after⟩
      intro a ha
      rcases List.mem_cons.mp ha with rfl | ha
      · exact hmax.2
      · exact hn.before a ha
    · rename_i hrest
      split at h
      · rename_i hb
        cases h
        refine ⟨rfl, hb, by simp, ?_⟩
        have := splitNewest_none hrest
        rwa [Nat.max_eq_right (Nat.le_of_lt hb)] at this
      · cases h

/-- Any split at a newest update is the one `splitNewest` finds. -/
theorem Newest.split (h : Newest stamp t before m after) :
    splitNewest stamp t (before ++ m :: after) = some (before, m, after) := by
  induction before generalizing t with
  | nil =>
    have hnone : splitNewest stamp (max t (stamp m)) after = none := by
      cases hs : splitNewest stamp (max t (stamp m)) after with
      | none => rfl
      | some p =>
        obtain ⟨b, m', a⟩ := p
        obtain ⟨rfl, hn⟩ := splitNewest_some hs
        have h1 := (Nat.max_lt.mp hn.start).2
        have h2 := h.after m' (by simp)
        omega
    simp [splitNewest, hnone, h.start]
  | cons a before ih =>
    have ha := h.before a (by simp)
    have hn : Newest stamp (max t (stamp a)) before m after :=
      ⟨Nat.max_lt.mpr ⟨h.start, ha⟩, fun b hb => h.before b (by simp [hb]), h.after⟩
    simp [splitNewest, ih hn]

end SplitNewest

end Lib
end Wcn
