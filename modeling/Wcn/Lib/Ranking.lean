import Mathlib

/-!
# Wcn.Lib.Ranking

The first elements of a list under a ranking, a total order given as a relation.

* `insertionSort_perm`, `insertionSort_filter` — sorting forgets the order of the list, and what is
  left out of the list is left out of the sorted list.
* `best_filter` — the best elements of a list that a predicate accepts are the first of the best
  ones among those it accepts.
* `best_insert` — a new element either changes nothing or displaces the last of the best.
* `getElem?_insertionSort` — which element has a given place.
* `card_best_sdiff` — two lists have as many different best elements as they have different
  elements, at most.
-/

namespace Wcn
namespace Lib

variable {α : Type} {r : α → α → Prop} [DecidableRel r]

/-- The first `n` elements in the order of the ranking. -/
def best (r : α → α → Prop) [DecidableRel r] (n : Nat) (l : List α) : List α :=
  (l.insertionSort r).take n

theorem length_best {n : Nat} {l : List α} (h : n ≤ l.length) : (best r n l).length = n := by
  rw [best, List.length_take, List.length_insertionSort, Nat.min_eq_left h]

theorem mem_of_mem_best {n : Nat} {l : List α} {x : α} (h : x ∈ best r n l) : x ∈ l :=
  (List.perm_insertionSort r l).mem_iff.mp (List.mem_of_mem_take h)

theorem nodup_best {l : List α} (h : l.Nodup) (n : Nat) : (best r n l).Nodup :=
  ((List.perm_insertionSort r l).nodup_iff.mpr h).sublist (List.take_sublist n _)

variable [Std.Total r] [IsTrans α r] [Std.Antisymm r]

theorem insertionSort_perm {l l' : List α} (h : l.Perm l') :
    l.insertionSort r = l'.insertionSort r := by
  have hperm := (List.perm_insertionSort r l).trans (h.trans (List.perm_insertionSort r l').symm)
  exact hperm.eq_of_pairwise' (List.pairwise_insertionSort r l) (List.pairwise_insertionSort r l')

theorem insertionSort_filter (p : α → Bool) (l : List α) :
    (l.filter p).insertionSort r = (l.insertionSort r).filter p := by
  have hperm := (List.perm_insertionSort r (l.filter p)).trans
    ((List.perm_insertionSort r l).filter p).symm
  exact hperm.eq_of_pairwise' (List.pairwise_insertionSort r _)
    ((List.pairwise_insertionSort r l).filter p)

theorem best_perm {l l' : List α} (h : l.Perm l') (n : Nat) : best r n l = best r n l' := by
  rw [best, best, insertionSort_perm h]

theorem best_filter (p : α → Bool) (n : Nat) (l : List α) :
    (best r n l).filter p <+: best r n (l.filter p) := by
  rw [best, best, insertionSort_filter, List.prefix_take_iff]
  constructor
  · exact (List.take_prefix n _).filter p
  · exact (List.length_filter_le p _).trans (List.length_take_le n _)

/-- Where a new element goes. -/
theorem insertionSort_insert (x : α) (l : List α) :
    ∃ before after, l.insertionSort r = before ++ after ∧
      (x :: l).insertionSort r = before ++ x :: after := by
  have hmem : x ∈ (x :: l).insertionSort r :=
    (List.perm_insertionSort r _).mem_iff.mpr List.mem_cons_self
  obtain ⟨before, after, heq⟩ := List.append_of_mem hmem
  refine ⟨before, after, ?_, heq⟩
  have hperm := (List.perm_insertionSort r (x :: l)).symm
  rw [heq] at hperm
  have hrest : l.Perm (before ++ after) := (hperm.trans List.perm_middle).cons_inv
  rw [insertionSort_perm hrest]
  have hsorted := List.pairwise_insertionSort r (x :: l)
  rw [heq] at hsorted
  refine List.Pairwise.insertionSort_eq (hsorted.sublist ?_)
  exact List.Sublist.append_left (List.sublist_cons_self x after) before

theorem best_insert {x : α} {l l' : List α} {n : Nat} (hl' : l'.Perm (x :: l))
    (hn : n ≤ l.length) :
    best r n l' = best r n l ∨ ∃ before after last,
      best r n l = before ++ after ++ [last] ∧ best r n l' = before ++ x :: after := by
  obtain ⟨before, after, hold, hnew⟩ := insertionSort_insert (r := r) x l
  have hlen : before.length + after.length = l.length := by
    rw [← List.length_append, ← hold, List.length_insertionSort]
  rw [best_perm hl', best, best, hold, hnew]
  rcases Nat.lt_or_ge before.length n with hlt | hle
  · -- the new element is among the best, and the last of the others drops out
    right
    obtain ⟨m, rfl⟩ := Nat.exists_eq_add_of_lt hlt
    have hm : m < after.length := by omega
    refine ⟨before, after.take m, after[m], ?_, ?_⟩
    · rw [Nat.add_assoc, List.take_length_add_append, List.take_succ_eq_append_getElem hm,
        List.append_assoc]
    · rw [Nat.add_assoc, List.take_length_add_append, List.take_succ_cons]
  · left
    rw [List.take_append_of_le_length hle, List.take_append_of_le_length hle]

section Cards

variable [DecidableEq α] {a b : List α} {n : Nat}

/-- The best of both lists together are among the best of each list that has them. -/
theorem best_union_inter (hb : b.Nodup) {u : List α} (hu : u.Nodup) (hsub : b ⊆ u) :
    (best r n u).toFinset ∩ b.toFinset ⊆ (best r n b).toFinset := by
  have hperm : (u.filter (· ∈ b)).Perm b := by
    refine (List.perm_ext_iff_of_nodup (hu.filter _) hb).mpr fun x => ?_
    rw [List.mem_filter, decide_eq_true_iff]
    exact ⟨And.right, fun hx => ⟨hsub hx, hx⟩⟩
  intro x hx
  rw [Finset.mem_inter, List.mem_toFinset, List.mem_toFinset] at hx
  have hbest := best_filter (r := r) (· ∈ b) n u
  rw [best_perm hperm] at hbest
  rw [List.mem_toFinset]
  exact hbest.subset (List.mem_filter.mpr ⟨hx.1, decide_eq_true hx.2⟩)

theorem card_best_sdiff (ha : a.Nodup) (hb : b.Nodup) (hna : n ≤ a.length) (hnb : n ≤ b.length) :
    ((best r n b).toFinset \ (best r n a).toFinset).card ≤
      (symmDiff a.toFinset b.toFinset).card := by
  -- the best of the union that are in both lists stay
  let u := (a ++ b).dedup
  have hu : u.Nodup := List.nodup_dedup _
  have hmem : ∀ x, x ∈ u ↔ x ∈ a ∨ x ∈ b := fun x => by
    rw [List.mem_dedup, List.mem_append]
  have hau := best_union_inter (r := r) (n := n) ha hu fun x hx => (hmem x).mpr (.inl hx)
  have hbu := best_union_inter (r := r) (n := n) hb hu fun x hx => (hmem x).mpr (.inr hx)
  have hkept : (best r n u).toFinset \ symmDiff a.toFinset b.toFinset ⊆
      (best r n b).toFinset ∩ (best r n a).toFinset := by
    intro x hx
    rw [Finset.mem_sdiff, Finset.mem_symmDiff] at hx
    obtain ⟨hx, hboth⟩ := hx
    have hor := (hmem x).mp (mem_of_mem_best (List.mem_toFinset.mp hx))
    simp only [List.mem_toFinset] at hboth
    have hxa : x ∈ a := by tauto
    have hxb : x ∈ b := by tauto
    rw [Finset.mem_inter]
    exact ⟨hbu (Finset.mem_inter.mpr ⟨hx, List.mem_toFinset.mpr hxb⟩),
      hau (Finset.mem_inter.mpr ⟨hx, List.mem_toFinset.mpr hxa⟩)⟩
  have hnu : n ≤ u.length := by
    refine hna.trans (List.Subperm.length_le (List.subperm_of_subset ha ?_))
    exact fun x hx => (hmem x).mpr (.inl hx)
  have hcardb : (best r n b).toFinset.card = n := by
    rw [List.toFinset_card_of_nodup (nodup_best hb n), length_best hnb]
  have hcardu : (best r n u).toFinset.card = n := by
    rw [List.toFinset_card_of_nodup (nodup_best hu n), length_best hnu]
  have hle := Finset.card_le_card hkept
  have hlost := Finset.le_card_sdiff (symmDiff a.toFinset b.toFinset) (best r n u).toFinset
  have hsplit := Finset.card_sdiff_add_card_inter (best r n b).toFinset (best r n a).toFinset
  omega

end Cards

section Place

variable {β : Type} [LinearOrder β]

/-- The element at a place of the sorted list is the least one up to which there are more elements than
the number of that place. -/
theorem getElem?_insertionSort {l : List β} {k : Nat} {b : β}
    (h : (l.insertionSort (· ≤ ·))[k]? = some b) :
    b ∈ l ∧ k < l.countP (· ≤ b) ∧ ∀ c ∈ l, k < l.countP (· ≤ c) → b ≤ c := by
  have hperm := List.perm_insertionSort (· ≤ ·) l
  have hsorted := List.pairwise_insertionSort (· ≤ ·) l
  simp only [← hperm.countP_eq, ← hperm.mem_iff]
  generalize l.insertionSort (· ≤ ·) = s at h hsorted
  obtain ⟨hk, hget⟩ := List.getElem?_eq_some_iff.mp h
  have hdrop : s.drop k = b :: s.drop (k + 1) := by
    rw [List.drop_eq_getElem_cons hk, hget]
  have hsplit : s = s.take k ++ b :: s.drop (k + 1) := by
    rw [← hdrop, List.take_append_drop]
  have hlen : (s.take k).length = k := by
    rw [List.length_take]
    omega
  rw [hsplit] at hsorted ⊢
  obtain ⟨-, hbehind, hacross⟩ := List.pairwise_append.mp hsorted
  obtain ⟨hfrom, -⟩ := List.pairwise_cons.mp hbehind
  have hcount : ∀ c, (s.take k ++ b :: s.drop (k + 1)).countP (· ≤ c) =
      (s.take k).countP (· ≤ c) + (b :: s.drop (k + 1)).countP (· ≤ c) := fun c =>
    List.countP_append
  refine ⟨List.mem_append_right _ List.mem_cons_self, ?_, fun c _ hc => ?_⟩
  · have hfront : (s.take k).countP (· ≤ b) = (s.take k).length :=
      List.countP_eq_length.mpr fun x hx => decide_eq_true (hacross x hx b List.mem_cons_self)
    rw [hcount, hfront, hlen, List.countP_cons, if_pos (decide_eq_true le_rfl)]
    omega
  · by_contra hlt
    have hnone : (b :: s.drop (k + 1)).countP (· ≤ c) = 0 := by
      refine List.countP_eq_zero.mpr fun x hx => ?_
      have hbx : b ≤ x := by
        rcases List.mem_cons.mp hx with rfl | hx
        · exact le_rfl
        · exact hfrom x hx
      rw [decide_eq_true_iff]
      exact fun hxc => hlt (hbx.trans hxc)
    have hle := List.countP_le_length (p := fun x => decide (x ≤ c)) (l := s.take k)
    rw [hcount, hnone] at hc
    omega

end Place

end Lib
end Wcn
