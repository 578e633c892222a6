import Mathlib

/-!
# Wcn.Lib.RoundRobin

Counting through `n` places with a counter that wraps around at `M`.

* `turn M n offset i` — the place after `i` further counts.
* `perm_turns_iff` — `n` counts visit every place once, exactly when the counter does not wrap around
  on the way or `n` divides `M`.
-/

namespace Wcn
namespace Lib

def turn (M n offset i : Nat) : Nat := (i + offset) % M % n

section Turns

variable {M n offset : Nat}

theorem turn_lt (hn : 0 < n) (i : Nat) : turn M n offset i < n := Nat.mod_lt _ hn

theorem turn_of_lt {i : Nat} (h : i + offset < M) : turn M n offset i = (i + offset) % n := by
  rw [turn, Nat.mod_eq_of_lt h]

theorem turn_of_dvd (h : n ∣ M) (i : Nat) : turn M n offset i = (i + offset) % n :=
  Nat.mod_mod_of_dvd _ h

/-- After the wrap-around, the places are counted from the first one on. -/
theorem turn_of_le {i : Nat} (h : M ≤ i + offset) (hM : i + offset - M < M)
    (hn : i + offset - M < n) : turn M n offset i = i + offset - M := by
  rw [turn, Nat.mod_eq_sub_mod h, Nat.mod_eq_of_lt hM, Nat.mod_eq_of_lt hn]

/-- Without a wrap-around, different counts are at different places. -/
theorem injOn_turn (h : offset + n ≤ M ∨ n ∣ M) {i j : Nat} (hi : i < n) (hj : j < n)
    (heq : turn M n offset i = turn M n offset j) : i = j := by
  have hmod : i + offset ≡ j + offset [MOD n] := by
    rcases h with h | h
    · rwa [turn_of_lt (show i + offset < M by omega), turn_of_lt (show j + offset < M by omega)] at heq
    · rwa [turn_of_dvd h, turn_of_dvd h] at heq
  exact Nat.ModEq.eq_of_lt_of_lt (Nat.ModEq.add_right_cancel' offset hmod) hi hj

/-- With one, two counts are at the same place. -/
theorem exists_turn_eq (hoffset : offset < M) (hn : n ≤ M) (hwrap : M < offset + n)
    (hdvd : ¬ n ∣ M) : ∃ i < n, ∃ j < n, i ≠ j ∧ turn M n offset i = turn M n offset j := by
  have hpos : 0 < M % n := Nat.pos_of_ne_zero fun h => hdvd (Nat.dvd_of_mod_eq_zero h)
  have hlt : M % n < n := Nat.mod_lt _ (by omega)
  have hdiv := Nat.div_add_mod M n
  by_cases hr : M % n ≤ M - offset
  · -- `M % n` counts before the wrap-around the counter is a multiple of `n`
    have hmultiple : M - offset - M % n + offset = n * (M / n) := by omega
    refine ⟨M - offset - M % n, by omega, M - offset, by omega, by omega, ?_⟩
    rw [turn_of_lt (by omega), turn_of_le (by omega) (by omega) (by omega), hmultiple,
      Nat.mul_mod_right]
    omega
  · -- the first count is as far from a multiple of `n` as the count `M % n` is from zero
    have hrest : 0 + offset = n * (M / n) + (M % n + offset - M) := by omega
    refine ⟨0, by omega, M % n, hlt, by omega, ?_⟩
    rw [turn_of_lt (by omega), turn_of_le (by omega) (by omega) (by omega), hrest, Nat.mul_add_mod,
      Nat.mod_eq_of_lt (by omega)]

theorem perm_turns_iff (hpos : 0 < n) (hoffset : offset < M) (hn : n ≤ M) :
    ((List.range n).map (turn M n offset)).Perm (List.range n) ↔ offset + n ≤ M ∨ n ∣ M := by
  constructor
  · intro hperm
    by_contra hnot
    rw [not_or] at hnot
    obtain ⟨i, hi, j, hj, hne, heq⟩ := exists_turn_eq hoffset hn (by omega) hnot.2
    have hnodup : ((List.range n).map (turn M n offset)).Nodup :=
      hperm.nodup_iff.mpr List.nodup_range
    exact hne (List.inj_on_of_nodup_map hnodup (List.mem_range.mpr hi) (List.mem_range.mpr hj) heq)
  · intro h
    have hnodup : ((List.range n).map (turn M n offset)).Nodup :=
      List.nodup_range.map_on fun i hi j hj heq =>
        injOn_turn h (List.mem_range.mp hi) (List.mem_range.mp hj) heq
    have hsub : (List.range n).map (turn M n offset) ⊆ List.range n := by
      intro place hplace
      obtain ⟨i, _, rfl⟩ := List.mem_map.mp hplace
      exact List.mem_range.mpr (turn_lt hpos i)
    exact (hnodup.subperm hsub).perm_of_length_le (by rw [List.length_map])

end Turns

end Lib
end Wcn
