import Mathlib

/-!
# Wcn.Lib.Majority

Counting votes in lists.

* `exists_mem_both`: two lists of distinct voters that together outnumber the electorate share one.
* `countP_exchange`: voters that vote like those in whose place they come leave the count as it is.
* `expand_perm`: the distinct values cast, each repeated as often as it was cast, are the votes.
-/

namespace Wcn
namespace Lib

variable {α β : Type*}

theorem exists_mem_both {voters a b : List α} (ha : a.Nodup) (hb : b.Nodup) (hsa : a ⊆ voters)
    (hsb : b ⊆ voters) (h : voters.length < a.length + b.length) : ∃ x, x ∈ a ∧ x ∈ b := by
  by_contra hno
  have hdisj : List.Disjoint a b := fun x hxa hxb => hno ⟨x, hxa, hxb⟩
  have hnd : (a ++ b).Nodup := List.nodup_append.mpr
    ⟨ha, hb, fun x hx y hy hxy => hdisj hx (hxy ▸ hy)⟩
  have hle : (a ++ b).length ≤ voters.length :=
    (List.subperm_of_subset hnd (List.append_subset.mpr ⟨hsa, hsb⟩)).length_le
  rw [List.length_append] at hle
  omega

/-- Two majorities of a list share an element. -/
theorem exists_of_length_lt_countP {l : List α} {p q : α → Bool}
    (h : l.length < l.countP p + l.countP q) : ∃ x ∈ l, p x = true ∧ q x = true := by
  induction l with
  | nil => simp at h
  | cons a l ih =>
    by_cases hp : p a = true
    · by_cases hq : q a = true
      · exact ⟨a, by simp, hp, hq⟩
      · obtain ⟨x, hx, hpq⟩ := ih (by
          rw [List.countP_cons_of_pos hp, List.countP_cons_of_neg hq, List.length_cons] at h
          omega)
        exact ⟨x, by simp [hx], hpq⟩
    · obtain ⟨x, hx, hpq⟩ := ih (by
        rw [List.countP_cons_of_neg hp, List.length_cons] at h
        have := List.countP_cons (p := q) (a := a) (l := l)
        split at this <;> omega)
      exact ⟨x, by simp [hx], hpq⟩

section Exchange

variable [DecidableEq α] {old new : List α}

theorem kept_perm (hold : old.Nodup) (hnew : new.Nodup) :
    (new.filter (· ∈ old)).Perm (old.filter (· ∈ new)) := by
  rw [List.perm_ext_iff_of_nodup (hnew.filter _) (hold.filter _)]
  intro x
  simp only [List.mem_filter, decide_eq_true_eq]
  exact and_comm

/-- In place of those that leave there come as many. -/
theorem length_exchange (hold : old.Nodup) (hnew : new.Nodup) (h : new.length = old.length) :
    (new.filter (· ∉ old)).length = (old.filter (· ∉ new)).length := by
  have hkept := (kept_perm hold hnew).length_eq
  have hsplit := List.length_eq_length_filter_add (l := new) (· ∈ old)
  have hsplit' := List.length_eq_length_filter_add (l := old) (· ∈ new)
  simp only [decide_not]
  omega

/-- If those that come vote like those in whose place they come, and the others vote as before, the
votes are as many as before. -/
theorem countP_exchange (hold : old.Nodup) (hnew : new.Nodup) {p q : α → Bool}
    (hkept : ∀ x ∈ old, x ∈ new → q x = p x)
    (hcome : List.Forall₂ (fun y x => q y = p x) (new.filter (· ∉ old)) (old.filter (· ∉ new))) :
    new.countP q = old.countP p := by
  have hpairs : ∀ {come leave : List α}, List.Forall₂ (fun y x => q y = p x) come leave →
      come.countP q = leave.countP p := by
    intro come leave h
    induction h with
    | nil => rfl
    | cons heq _ ih => rw [List.countP_cons, List.countP_cons, ih, heq]
  calc new.countP q
      = (new.filter (· ∈ old)).countP q + (new.filter (· ∉ old)).countP q := by
        rw [new.countP_eq_countP_filter_add q (· ∈ old)]
        simp only [decide_not]
    _ = (old.filter (· ∈ new)).countP p + (old.filter (· ∉ new)).countP p := by
        rw [hpairs hcome, (kept_perm hold hnew).countP_congr fun x hx => ?_]
        simp only [List.mem_filter, decide_eq_true_eq] at hx
        exact hkept x hx.2 hx.1
    _ = old.countP p := by
        rw [old.countP_eq_countP_filter_add p (· ∈ new)]
        simp only [decide_not]

end Exchange

/-- The votes, grouped by value. -/
def expand [DecidableEq α] (values votes : List α) : List α :=
  values.flatMap fun x => List.replicate (votes.count x) x

section Expand

variable [DecidableEq α] {values votes : List α}

theorem count_expand (hnd : values.Nodup) (a : α) :
    (expand values votes).count a = if a ∈ values then votes.count a else 0 := by
  unfold expand
  induction values with
  | nil => rfl
  | cons x values ih =>
    obtain ⟨hx, hnd⟩ := List.nodup_cons.mp hnd
    rw [List.flatMap_cons, List.count_append, ih hnd, List.count_replicate]
    by_cases hax : x = a
    · subst hax
      simp [hx]
    · have hxa : ¬ a = x := fun h => hax h.symm
      simp [hax, hxa]

theorem expand_perm (hnd : values.Nodup) (hmem : ∀ x, x ∈ values ↔ x ∈ votes) :
    (expand values votes).Perm votes := by
  rw [List.perm_iff_count]
  intro a
  rw [count_expand hnd]
  split
  · rfl
  · rename_i ha
    exact (List.count_eq_zero.mpr fun h => ha ((hmem a).mpr h)).symm

/-- Summing over the votes is summing over the values with their counts as weights. -/
theorem sum_weighted (hnd : values.Nodup) (hmem : ∀ x, x ∈ values ↔ x ∈ votes) (g : α → Nat) :
    (values.map fun x => votes.count x * g x).sum = (votes.map g).sum := by
  rw [← ((expand_perm hnd hmem).map g).sum_eq]
  unfold expand
  clear hnd hmem
  induction values with
  | nil => rfl
  | cons x values ih =>
    rw [List.map_cons, List.sum_cons, ih, List.flatMap_cons, List.map_append, List.sum_append]
    simp

end Expand

end Lib
end Wcn
