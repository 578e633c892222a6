import Mathlib.Data.List.Basic

/-!
# Wcn.Lib.Loops

Loops that may fail, and arrays they fill from the front.

* `loop` — a loop with a bound on how often its condition is tested; `none` if that was too few.
* `loop_of_states` — a loop whose states are known ends in the last of them.
* `filled` — an array of a fixed length with its first entries written.
-/

namespace Wcn
namespace Lib

variable {σ ε α : Type*}

def loop (guard : σ → Bool) (body : σ → Except ε σ) : Nat → σ → Option (Except ε σ)
  | 0, _ => none
  | fuel + 1, s =>
    if guard s then
      match body s with
      | .ok s' => loop guard body fuel s'
      | .error e => some (.error e)
    else
      some (.ok s)

theorem loop_of_states {guard : σ → Bool} {body : σ → Except ε σ} (states : Nat → σ) {n fuel : Nat}
    (hguard : ∀ k < n, guard (states k) = true)
    (hbody : ∀ k < n, body (states k) = .ok (states (k + 1)))
    (hexit : guard (states n) = false) (hfuel : n < fuel) :
    loop guard body fuel (states 0) = some (.ok (states n)) := by
  induction n generalizing states fuel with
  | zero =>
    obtain ⟨fuel, rfl⟩ := Nat.exists_eq_succ_of_ne_zero (Nat.ne_of_gt hfuel)
    rw [loop, hexit]
    rfl
  | succ n ih =>
    obtain ⟨fuel, rfl⟩ := Nat.exists_eq_succ_of_ne_zero (Nat.ne_of_gt (Nat.zero_lt_of_lt hfuel))
    rw [loop, hguard 0 n.succ_pos, if_pos rfl, hbody 0 n.succ_pos]
    -- what is left is the loop from the second state on
    exact ih (fun k => states (k + 1)) (fun k hk => hguard (k + 1) (Nat.succ_lt_succ hk))
      (fun k hk => hbody (k + 1) (Nat.succ_lt_succ hk)) hexit (Nat.lt_of_succ_lt_succ hfuel)

/-- An array of `len` entries that starts with `written`. -/
def filled (len : Nat) (blank : α) (written : List α) : List α :=
  written ++ List.replicate (len - written.length) blank

@[simp] theorem filled_nil (len : Nat) (blank : α) :
    filled len blank [] = List.replicate len blank := rfl

theorem filled_full {len : Nat} {written : List α} (h : written.length = len) (blank : α) :
    filled len blank written = written := by
  rw [filled, h, Nat.sub_self, List.replicate_zero, List.append_nil]

theorem length_filled {len : Nat} {written : List α} (h : written.length ≤ len) (blank : α) :
    (filled len blank written).length = len := by
  rw [filled, List.length_append, List.length_replicate, Nat.add_sub_cancel' h]

theorem filled_append_blank {len : Nat} {written : List α} (h : written.length < len) (blank : α) :
    filled len blank (written ++ [blank]) = filled len blank written := by
  obtain ⟨rest, rfl⟩ := Nat.exists_eq_add_of_lt h
  have hblank : written.length + rest + 1 - written.length = rest + 1 := by omega
  have hrest : written.length + rest + 1 - (written ++ [blank]).length = rest := by
    rw [List.length_append, List.length_singleton]
    omega
  rw [filled, filled, hblank, hrest, List.replicate_succ, List.append_assoc, List.singleton_append]

theorem set_filled {len : Nat} {written : List α} (h : written.length < len) (blank a : α) :
    (filled len blank written).set written.length a = filled len blank (written ++ [a]) := by
  rw [← filled_append_blank h, filled, filled, List.append_assoc, List.set_append_right _ _ (Nat.le_refl _),
    Nat.sub_self, List.singleton_append, List.set_cons_zero, List.append_assoc, List.singleton_append,
    List.length_append, List.length_append, List.length_singleton, List.length_singleton]

end Lib
end Wcn
