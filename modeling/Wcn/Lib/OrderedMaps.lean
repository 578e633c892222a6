import Mathlib

/-!
# Wcn.Lib.OrderedMaps

Parts of ordered maps, as lists in key order. A part that is cut out by a condition on the keys is
determined by what the map holds at those keys (`part_congr`). Parts for disjoint conditions make up
the whole (`flatMap_filter_perm`).
-/

namespace Wcn
namespace Lib

/-- Sorting a list into classes loses nothing and repeats nothing. -/
theorem flatMap_filter_perm {α β : Type} [DecidableEq β] (f : α → β) {classes : List β}
    (hnodup : classes.Nodup) {l : List α} (hmem : ∀ a ∈ l, f a ∈ classes) :
    (classes.flatMap fun b => l.filter fun a => f a = b).Perm l := by
  classical
  refine List.perm_iff_count.mpr fun a => ?_
  have hother : ∀ b, b ≠ f a → b ∈ classes →
      (List.count a ∘ fun b => l.filter fun a => f a = b) b = 0 := by
    intro b hb _
    refine List.count_eq_zero.mpr fun ha => ?_
    exact hb (of_decide_eq_true (List.mem_filter.mp ha).2).symm
  have hown : (l.filter fun x => f x = f a).count a = l.count a := List.count_filter (by simp)
  rw [List.count_flatMap, List.sum_map_eq_nsmul_single (f a) _ hother, Function.comp_apply, hown]
  by_cases ha : a ∈ l
  · rw [List.count_eq_one_of_mem hnodup (hmem a ha), one_nsmul]
  · rw [List.count_eq_zero.mpr ha, smul_zero]

variable {α β γ : Type} {cmp : α → α → Ordering} [Std.TransCmp cmp] [Std.LawfulEqCmp cmp]

theorem part_congr {m m' : Std.ExtTreeMap α β cmp} {p : α → Bool} {f : β → γ}
    (h : ∀ k, p k = true → m[k]?.map f = m'[k]?.map f) :
    (m.toList.filter fun entry => p entry.1).map (fun entry => (entry.1, f entry.2)) =
      (m'.toList.filter fun entry => p entry.1).map fun entry => (entry.1, f entry.2) := by
  have hpart : ∀ m : Std.ExtTreeMap α β cmp,
      (m.toList.filter fun entry => p entry.1).map (fun entry => (entry.1, f entry.2)) =
        ((m.filter fun k _ => p k).map fun _ => f).toList := fun m => by
    rw [Std.ExtTreeMap.toList_map, Std.ExtTreeMap.toList_filter]
  rw [hpart, hpart]
  refine congrArg _ (Std.ExtTreeMap.ext_getElem? fun k => ?_)
  rw [Std.ExtTreeMap.getElem?_map, Std.ExtTreeMap.getElem?_map, Std.ExtTreeMap.getElem?_filter',
    Std.ExtTreeMap.getElem?_filter']
  have hfilter : ∀ o : Option β, o.filter (fun _ => p k) = if p k then o else none := fun o => by
    cases o <;> cases p k <;> rfl
  rw [hfilter, hfilter]
  split
  · next hk => exact h k hk
  · rfl

end Lib
end Wcn
